import Taas.Deps

/-!
# A revoked key is refused

* `admitted_within` — a request that was let in began less than the time to live after a moment at
  which the key was an active user's, with the scope the request was given. So a key that was
  revoked, rotated or narrowed ten seconds ago lets nobody in as before.
-/

namespace Taas

open Infra Infra.Prog

/-- What the table says of a key: nobody has it, or some active user does. -/
def KeyOf (users : List UserRow) (hashed : String) (principal : Option Principal) : Prop :=
  ∀ found, principal = some found →
    ∃ user ∈ users, user.hashedKey = hashed ∧ user.active = true ∧ found = user.principal

theorem activeUser_spec {pick : Nat} {hashed : String} {users : List UserRow} {user : UserRow}
    (h : activeUser pick hashed users = some user) :
    user ∈ users ∧ user.hashedKey = hashed ∧ user.active = true := by
  have hmem := List.mem_of_getElem? h
  rw [List.mem_filter, Bool.and_eq_true, decide_eq_true_eq] at hmem
  exact hmem

theorem keyOf_activeUser (pick : Nat) (hashed : String) (users : List UserRow) :
    KeyOf users hashed ((activeUser pick hashed users).map UserRow.principal) := by
  intro found h
  obtain ⟨user, huser, rfl⟩ := Option.map_eq_some_iff.mp h
  obtain ⟨hmem, hkey, hactive⟩ := activeUser_spec huser
  exact ⟨user, hmem, hkey, hactive, rfl⟩

/-- Who was let in was found by a lookup that came after the request. -/
def admissions : Reports String (Option Principal) Admission where
  right a es := CachePolicy.ServedSince a.hashedKey (some a.principal) a.began es
  mono _ _ _ hsub h := h.mono hsub

section

variable {hashKey : String → String} {pick : Nat} {begin : ℚ}
  {A : ℚ → List (CacheNote String (Option Principal) Admission) → Prop}

/-- Who is let in was found by a lookup of their key. -/
theorem behaves_requirePrincipal (hA : CachePolicy.Lasting A)
    (hbegin : ∀ now es, A now es → begin ≤ now) (apiKey : Option String) :
    userCache.Behaves admissions KeyOf A (requirePrincipal hashKey pick apiKey)
      fun result now es => A now es ∧ ∀ principal, result = .ok principal →
        CachePolicy.ServedSince (hashKey (apiKey.getD "")) (some principal) begin es := by
  unfold requirePrincipal
  split
  · exact CachePolicy.behaves_pure fun _ _ h => ⟨h, fun _ hok => by cases hok⟩
  · next key hkey =>
    obtain ⟨rfl, -⟩ := Option.filter_eq_some_iff.mp hkey
    have hfetch := CachePolicy.behaves_fetch (P := userCache) (J := admissions) hA hbegin
      (k := hashKey key) (keyOf_activeUser pick (hashKey key))
    refine hfetch.bind fun found => CachePolicy.behaves_pure fun now es h => ⟨h.1, ?_⟩
    intro principal hok
    cases found with
    | none => cases hok
    | some found =>
      obtain rfl := Except.ok.inj hok
      exact h.2

theorem behaves_request (apiKey : Option String) :
    userCache.Behaves admissions KeyOf (fun _ _ => True) (request hashKey pick apiKey)
      fun _ _ _ => True := by
  refine (CachePolicy.behaves_time CachePolicy.lasting_true).bind fun began => ?_
  have hA : CachePolicy.Lasting fun now (_ : List (CacheNote String (Option Principal) Admission)) =>
      True ∧ began ≤ now := fun _ _ _ _ hle _ h => ⟨trivial, h.2.trans hle⟩
  refine (behaves_requirePrincipal hA (fun _ _ h => h.2) apiKey).bind fun result => ?_
  cases result with
  | error text => exact CachePolicy.behaves_pure fun _ _ _ => trivial
  | ok principal =>
    refine (CachePolicy.behaves_tell (fun now now' es es' hle hsub h => ?_)
      fun now es h => h.2 principal rfl).imp fun _ _ _ _ => trivial
    exact ⟨hA now now' es es' hle hsub h.1, fun p hp => (h.2 p hp).mono hsub⟩

theorem behaves_authHand (hand : AuthHand) (hforward : hand.Forward) :
    userCache.Behaves admissions KeyOf (fun _ _ => True) (hand.prog hashKey) fun _ _ _ => True := by
  cases hand with
  | request pick apiKey => exact behaves_request apiKey
  | admin write => exact CachePolicy.behaves_change write
  | invalidate => exact CachePolicy.behaves_drop fun _ => true
  | clock durations => exact CachePolicy.behaves_clock hforward

end

section

variable {ι : Type} [DecidableEq ι] {hashKey : String → String} {hands : ι → Option AuthHand}
  {users : List UserRow} {now : ℚ}
  {q : Pool (Cached (List UserRow) String (Option Principal))
    (CacheNote String (Option Principal) Admission) ι}

theorem opens_authPool (hforward : ∀ i hand, hands i = some hand → hand.Forward) :
    userCache.Opens admissions KeyOf (authPool hashKey hands users now) where
  behaves i c hc := by
    obtain ⟨hand, hhand, rfl⟩ := Option.map_eq_some_iff.mp hc
    exact behaves_authHand hand (hforward i hand hhand)
  entries := rfl
  history := rfl

/-- **A request is let in as a user whose key was good less than ten seconds before.** Whatever
requests, changes of users and losses of the cache come in between: at some moment of the run that
is less than the time to live before the request began, or later, an active user had this key, and
the request got this user's name and scope. And the cache never holds more than its maximum. -/
theorem admitted_within (hforward : ∀ i hand, hands i = some hand → hand.Forward)
    (hr : Pool.Run .free (authPool hashKey hands users now) q) :
    q.shared.entries.length ≤ userCacheMax ∧
      ∀ a : Admission, .told a ∈ q.history →
        ∃ r, Pool.Run .free (authPool hashKey hands users now) r ∧ Pool.Run .free r q ∧
          a.began < r.shared.now + userCacheTtl ∧
            ∃ user ∈ r.shared.source, user.hashedKey = a.hashedKey ∧ user.active = true ∧
              a.principal = user.principal := by
  have hopens : userCache.Opens admissions KeyOf (authPool hashKey hands users now) :=
    opens_authPool hforward
  refine ⟨hopens.length_le hr rfl (by decide), fun a ha => ?_⟩
  obtain ⟨t, hbegan, hserved⟩ := hopens.told hr ha
  have httl : 0 < userCache.ttl := by decide +kernel
  obtain ⟨r, hpr, hrq, hkey, -, hlt⟩ := hopens.served_early hr rfl httl hserved
  exact ⟨r, hpr, hrq, hbegan.trans_lt hlt, hkey a.principal rfl⟩

def librarian : UserRow := { username := "l", hashedKey := "#k", allowedDomains := some ["maps"] }

/-- Two requests; in between the user is disabled and nine seconds pass. -/
def librarianHands : List AuthHand :=
  [.request 0 (some "k"), .admin fun _ => [{ librarian with active := false }], .clock [9],
    .request 0 (some "k")]

/-- The second request still gets in, from the cache: its key was good when the first one came. -/
theorem admitted_within_sample :
    ∃ q : Pool (Cached (List UserRow) String (Option Principal))
        (CacheNote String (Option Principal) Admission) Nat,
      q.shared.source = [{ librarian with active := false }] ∧
        .told ⟨"#k", librarian.principal, 9⟩ ∈ q.history ∧
          ∃ r, Pool.Run .free (authPool ("#" ++ ·) (fun i => librarianHands[i]?) [librarian] 0) r ∧
            Pool.Run .free r q ∧ 9 < r.shared.now + userCacheTtl ∧
              ∃ user ∈ r.shared.source, user.hashedKey = "#k" ∧ user.active = true ∧
                librarian.principal = user.principal := by
  obtain ⟨q, hq, hP⟩ := Pool.exists_run_of_schedule (R := Regime.free) (fun _ _ => trivial)
    (p := authPool ("#" ++ ·) (fun i => librarianHands[i]?) [librarian] 0)
    (l := List.replicate 5 0 ++ [1, 2] ++ List.replicate 3 3)
    (P := fun q => decide (q.shared.source = [{ librarian with active := false }]) &&
      decide (.told ⟨"#k", librarian.principal, 9⟩ ∈ q.history)) (by decide +kernel)
  rw [Bool.and_eq_true, decide_eq_true_eq, decide_eq_true_eq] at hP
  have hforward : ∀ (i : Nat) hand, librarianHands[i]? = some hand → hand.Forward := by
    have hclock : (0 : ℚ) ≤ 9 := by decide +kernel
    have hall : ∀ hand ∈ librarianHands, hand.Forward := by
      simp [librarianHands, AuthHand.Forward, hclock]
    exact fun _ hand h => hall hand (List.mem_of_getElem? h)
  exact ⟨q, hP.1, hP.2, (admitted_within hforward hq).2 _ hP.2⟩

end

end Taas
