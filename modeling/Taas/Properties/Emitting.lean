import Taas.Infra.Runs
import Taas.Services.EventEmitter

/-!
# Every row is accepted or counted

A row moves from the queue to the batch, from there into a post, and is accepted by ClickHouse or
counted as dropped. Four steps let go of rows without counting them.

* `EventEmitter.held` — the rows that are still on their way.
* `EventEmitter.loses` — the rows that a step lets go of.
* `accounted_iff` — when `aclose` returned, every row is accounted for exactly if no step lost one.
-/

namespace Taas

open Infra

variable {ρ : Type} [DecidableEq ρ]

/-- The rows of a post that ClickHouse has not accepted. -/
def Post.open (post : Post ρ) : List ρ := if post.answer = some true then [] else post.rows

def TaskAt.rows : TaskAt ρ → List ρ
  | .posting post => post.open
  | _ => []

def CloserAt.rows : CloserAt ρ → List ρ
  | .posting post => post.open
  | _ => []

section

variable {post : Post ρ}

omit [DecidableEq ρ]

@[simp] theorem TaskAt.rows_unstarted : (.unstarted : TaskAt ρ).rows = [] := rfl

@[simp] theorem TaskAt.rows_waiting : (.waiting : TaskAt ρ).rows = [] := rfl

@[simp] theorem TaskAt.rows_filling : (.filling : TaskAt ρ).rows = [] := rfl

@[simp] theorem TaskAt.rows_ended : (.ended : TaskAt ρ).rows = [] := rfl

@[simp] theorem TaskAt.rows_posting : (TaskAt.posting post).rows = post.open := rfl

@[simp] theorem CloserAt.rows_uncalled : (.uncalled : CloserAt ρ).rows = [] := rfl

@[simp] theorem CloserAt.rows_flushing : (.flushing : CloserAt ρ).rows = [] := rfl

@[simp] theorem CloserAt.rows_posting : (CloserAt.posting post).rows = post.open := rfl

theorem Post.open_accepted (h : post.answer = some true) : post.open = [] := if_pos h

theorem Post.open_of_not (h : post.answer ≠ some true) : post.open = post.rows := if_neg h

theorem Post.open_eq_nil (h : post.rows ≠ []) :
    post.open = [] ↔ post.answer = some true := by
  constructor
  · intro hnil
    by_contra hnot
    rw [Post.open_of_not hnot] at hnil
    exact h hnil
  · exact Post.open_accepted

end

/-- `flush` is over. -/
def CloserAt.isDone : CloserAt ρ → Bool
  | .closing | .returned => true
  | _ => false

namespace EventEmitter

/-- How often the row is still to be accepted or counted. -/
def held (e : EventEmitter ρ) (row : ρ) : Nat :=
  if e.closer.isDone then 0
  else e.queue.count row + e.batch.count row + e.task.rows.count row + e.closer.rows.count row

/-- How often the row is in a successful post. -/
def acceptances (e : EventEmitter ρ) (row : ρ) : Nat := e.accepted.flatten.count row

/-- Each row that was emitted was accepted in exactly one successful post, or is counted exactly
once in the dropped total. -/
structure Accounted (e : EventEmitter ρ) : Prop where
  rows : ∀ row, e.emitted.count row = e.acceptances row + e.counted.count row
  dropped : e.dropped = e.counted.length

omit [DecidableEq ρ] in
/-- No row gets lost: `aclose` does not cancel a post of the background task that was not accepted,
nor the timeout one of `flush`, `flush` has a client or nothing to post, and nothing is put on the
queue once it is over. -/
def Spares (e : EventEmitter ρ) : EmitterStep ρ → Prop
  | .aclose => e.closer = .uncalled → ∀ post, e.task = .posting post → post.answer = some true
  | .timeout => ∀ post, e.closer = .posting post → post.answer = some true
  | .flush => e.closer = .flushing → e.hasClient = false → e.batch ++ e.queue = []
  | .emit _ => e.closer = .closing → e.full = true
  | _ => True

/-- The rows that a step lets go of. -/
def loses (e : EventEmitter ρ) : EmitterStep ρ → List ρ
  | .aclose => if e.closer = .uncalled then e.task.rows else []
  | .timeout => e.closer.rows
  | .flush => if e.closer = .flushing ∧ e.hasClient = false then e.batch ++ e.queue else []
  | .emit row => if e.closer = .closing ∧ e.full = false then [row] else []
  | _ => []

/-- Where the rows are that were emitted. -/
structure Kept (lost : List ρ) (e : EventEmitter ρ) : Prop where
  rows : ∀ row, e.emitted.count row =
    e.held row + e.acceptances row + e.counted.count row + lost.count row
  dropped : e.dropped = e.counted.length
  /-- Once `aclose` was called, the background task does nothing. -/
  stopped : e.closer ≠ .uncalled → e.task = .unstarted ∨ e.task = .ended
  flushed : ∀ post, e.closer = .posting post → e.batch = [] ∧ post.rows ≠ []
  filling : e.task = .filling → e.batch ≠ []
  posting : ∀ post, e.task = .posting post → post.rows ≠ []

variable {e : EventEmitter ρ} {lost : List ρ}

theorem kept_start (queueMax : Nat) (ownsHttp : Bool) :
    Kept [] ({ queueMax := queueMax, ownsHttp := ownsHttp } : EventEmitter ρ) :=
  ⟨fun _ => rfl, rfl, fun h => absurd rfl h, nofun, nofun, nofun⟩

/-! ## The steps -/

omit [DecidableEq ρ] in
/-- A row that a full queue turns away is counted. -/
theorem emit_of_full (row : ρ) (hfull : e.full = true) :
    e.emit row = { e.drop [row] with emitted := e.emitted ++ [row] } := if_pos hfull

omit [DecidableEq ρ] in
theorem emit_of_room (row : ρ) (hfull : e.full = false) : e.emit row =
    { e with emitted := e.emitted ++ [row], queue := e.queue ++ [row] } := by
  refine if_neg ?_
  rw [Bool.not_eq_true]
  exact hfull

theorem Kept.emit (h : e.Kept lost) (row : ρ) :
    (e.step (.emit row)).Kept (lost ++ e.loses (.emit row)) := by
  by_cases hret : e.closer = .returned
  · have hstep : e.step (.emit row) = e := by simp [step, hret]
    have hnone : e.loses (.emit row) = [] := by simp [loses, hret]
    rw [hstep, hnone, List.append_nil]
    exact h
  · have hstep : e.step (.emit row) = e.emit row := by
      unfold step
      cases hc : e.closer <;> first | rfl | exact absurd hc hret
    rw [hstep]
    cases hfull : e.full with
    | true =>
      have hnone : e.loses (.emit row) = [] := by simp [loses, hfull]
      rw [emit_of_full row hfull, hnone, List.append_nil]
      refine ⟨fun r => ?_, ?_, h.stopped, h.flushed, h.filling, h.posting⟩
      · have hr := h.rows r
        show (e.emitted ++ [row]).count r =
          e.held r + e.acceptances r + (e.counted ++ [row]).count r + lost.count r
        simp only [List.count_append]
        omega
      · simp [drop, h.dropped]
    | false =>
      rw [emit_of_room row hfull]
      refine ⟨fun r => ?_, h.dropped, h.stopped, h.flushed, h.filling, h.posting⟩
      have hr := h.rows r
      cases hdone : e.closer.isDone with
      | true =>
        have hclosing : e.loses (.emit row) = [row] := by
          cases hc : e.closer <;> simp_all [CloserAt.isDone, loses]
        simp only [held, acceptances, hdone, hclosing, if_true, List.count_append] at hr ⊢
        omega
      | false =>
        have hnone : e.loses (.emit row) = [] := by
          cases hc : e.closer <;> simp_all [CloserAt.isDone, loses]
        simp only [held, acceptances, hdone, hnone, if_false, Bool.false_eq_true,
          List.count_append, List.count_nil] at hr ⊢
        omega

/-- The background task works only before `aclose`. -/
theorem Kept.uncalled (h : e.Kept lost) (hun : e.task ≠ .unstarted) (hend : e.task ≠ .ended) :
    e.closer = .uncalled := by
  by_contra hc
  rcases h.stopped hc with hs | hs
  · exact hun hs
  · exact hend hs

/-- The background task takes a row from the queue to its batch. -/
theorem Kept.getRow (h : e.Kept lost) (ht : e.task = .waiting ∨ e.task = .filling) :
    e.get.Kept lost := by
  have hc : e.closer = .uncalled := by
    rcases ht with ht | ht <;> exact h.uncalled (by rw [ht]; nofun) (by rw [ht]; nofun)
  have hrows : e.task.rows = [] := by rcases ht with ht | ht <;> rw [ht] <;> rfl
  unfold EventEmitter.get
  split
  · exact h
  · next row queue hq =>
    refine ⟨fun r => ?_, h.dropped, fun hne => absurd hc hne, fun post hp => ?_, fun _ => by simp,
      nofun⟩
    · have hr := h.rows r
      simp only [held, acceptances, hc, hq, hrows, CloserAt.isDone, TaskAt.rows_filling, if_false,
        Bool.false_eq_true, List.count_append, List.count_cons, List.count_nil] at hr ⊢
      omega
    · rw [hc] at hp
      cases hp

theorem Kept.get (h : e.Kept lost) : (e.step .get).Kept lost := by
  unfold step
  dsimp only
  split
  · next ht => exact h.getRow (Or.inl ht)
  · next ht =>
    split
    · exact h.getRow (Or.inr ht)
    · exact h
  · exact h

theorem Kept.postBatch (h : e.Kept lost) : (e.step .postBatch).Kept lost := by
  unfold step
  dsimp only
  split
  · next ht =>
    have hc := h.uncalled (by rw [ht]; nofun) (by rw [ht]; nofun)
    refine ⟨fun r => ?_, h.dropped, fun hne => absurd hc hne, fun post hp => ?_, nofun,
      fun post hp => ?_⟩
    · have hr := h.rows r
      simp only [EventEmitter.postBatch, held, acceptances, hc, ht, CloserAt.isDone, TaskAt.rows,
        Post.open, if_false, Bool.false_eq_true, reduceCtorEq, List.count_nil] at hr ⊢
      omega
    · have hp' : e.closer = .posting post := hp
      rw [hc] at hp'
      cases hp'
    · obtain rfl := TaskAt.posting.inj hp
      exact h.filling ht
  · exact h

/-- What ClickHouse accepts is on its way no more. -/
theorem Kept.answer (h : e.Kept lost) (ok : Bool) : (e.step (.answer ok)).Kept lost := by
  unfold step
  dsimp only
  split
  · next rows ht =>
    have hc := h.uncalled (by rw [ht]; nofun) (by rw [ht]; nofun)
    refine ⟨fun r => ?_, h.dropped, fun hne => absurd hc hne, fun post hp => ?_, nofun,
      fun post hp => ?_⟩
    · have hr := h.rows r
      cases ok <;>
        simp [answered, held, acceptances, hc, ht, CloserAt.isDone, Post.open] at hr ⊢ <;> omega
    · have hp' : e.closer = .posting post := hp
      rw [hc] at hp'
      cases hp'
    · obtain rfl := TaskAt.posting.inj hp
      exact h.posting { rows := rows } ht
  · next rows hc _ =>
    have ht := h.stopped (by rw [hc]; nofun)
    have hrows : e.task.rows = [] := by rcases ht with ht | ht <;> rw [ht] <;> rfl
    refine ⟨fun r => ?_, h.dropped, fun _ => ht, fun post hp => ?_, h.filling, h.posting⟩
    · have hr := h.rows r
      cases ok <;>
        simp [answered, held, acceptances, hc, hrows, CloserAt.isDone, Post.open] at hr ⊢ <;> omega
    · obtain rfl := CloserAt.posting.inj hp
      exact h.flushed { rows := rows } hc
  · exact h

omit [DecidableEq ρ] in
/-- A failed post's rows are counted. -/
theorem posted_eq (ok : Bool) (post : Post ρ) : e.posted ok post =
    { e with
      dropped := e.dropped + (if ok then [] else post.rows).length
      counted := e.counted ++ if ok then [] else post.rows } := by
  cases ok with
  | true => simp [posted]
  | false => rfl

theorem Kept.resume (h : e.Kept lost) : (e.step .resume).Kept lost := by
  unfold step
  dsimp only
  split
  · next rows ok ht =>
    have hc := h.uncalled (by rw [ht]; nofun) (by rw [ht]; nofun)
    rw [posted_eq]
    refine ⟨fun r => ?_, ?_, fun hne => absurd hc hne, fun post hp => ?_, nofun, nofun⟩
    · have hr := h.rows r
      cases ok <;> simp [held, acceptances, hc, ht, CloserAt.isDone, Post.open] at hr ⊢ <;> omega
    · simp [h.dropped]
    · have hp' : e.closer = .posting post := hp
      rw [hc] at hp'
      cases hp'
  · next rows ok hc _ =>
    have ht := h.stopped (by rw [hc]; nofun)
    have hrows : e.task.rows = [] := by rcases ht with ht | ht <;> rw [ht] <;> rfl
    rw [posted_eq]
    refine ⟨fun r => ?_, ?_, fun _ => ht, nofun, h.filling, h.posting⟩
    · have hr := h.rows r
      cases ok <;> simp [held, acceptances, hc, hrows, CloserAt.isDone, Post.open] at hr ⊢ <;> omega
    · simp [h.dropped]
  · exact h

theorem Kept.aclose (h : e.Kept lost) : (e.step .aclose).Kept (lost ++ e.loses .aclose) := by
  unfold step
  dsimp only
  split
  · next hc =>
    have hloses : e.loses .aclose = e.task.rows := if_pos hc
    have hstopped : e.cancelTask.task = .unstarted ∨ e.cancelTask.task = .ended := by
      unfold cancelTask
      dsimp only
      split
      · exact Or.inl rfl
      all_goals exact Or.inr rfl
    have hrows : e.cancelTask.task.rows = [] := by
      rcases hstopped with ht | ht <;> rw [ht] <;> rfl
    refine ⟨fun r => ?_, h.dropped, fun _ => hstopped, nofun, fun hf => ?_, fun post hp => ?_⟩
    · have hr := h.rows r
      have hnew : (e.cancelTask.task.rows).count r = 0 := by rw [hrows, List.count_nil]
      simp only [held, acceptances, hc, hloses, CloserAt.isDone, CloserAt.rows_uncalled,
        CloserAt.rows_flushing, if_false, Bool.false_eq_true, List.count_append,
        List.count_nil] at hr ⊢
      -- the rows of the task are lost now
      show e.emitted.count r = e.queue.count r + e.batch.count r +
        (e.cancelTask.task.rows).count r + 0 + e.accepted.flatten.count r + e.counted.count r +
        (lost.count r + e.task.rows.count r)
      omega
    · have hf' : e.cancelTask.task = .filling := hf
      rcases hstopped with ht | ht <;> rw [ht] at hf' <;> cases hf'
    · have hp' : e.cancelTask.task = .posting post := hp
      rcases hstopped with ht | ht <;> rw [ht] at hp' <;> cases hp'
  · next hc =>
    have hnone : e.loses .aclose = [] := if_neg hc
    rw [hnone, List.append_nil]
    exact h

/-- `flush` ends with nothing left. -/
theorem Kept.close (h : e.Kept lost) (hc : e.closer = .flushing) (hbatch : e.batch = [])
    (hqueue : e.queue = []) : e.close.Kept lost := by
  have ht := h.stopped (by rw [hc]; nofun)
  have hrows : e.task.rows = [] := by rcases ht with ht | ht <;> rw [ht] <;> rfl
  have hdone : e.close.closer.isDone = true := by
    unfold EventEmitter.close
    dsimp only
    split <;> rfl
  refine ⟨fun r => ?_, h.dropped, fun _ => ht, fun post hp => ?_, h.filling, h.posting⟩
  · have hr := h.rows r
    have hheld : e.close.held r = 0 := by rw [held, hdone]; rfl
    simp only [held, hc, hbatch, hqueue, hrows, CloserAt.isDone, CloserAt.rows_flushing, if_false,
      Bool.false_eq_true, List.count_nil] at hr
    rw [hheld]
    exact hr
  · rw [hp] at hdone
    cases hdone

/-- Without a client, what is left is neither posted nor counted. -/
theorem Kept.flushNone (h : e.Kept lost) (hc : e.closer = .flushing) :
    ({ e with batch := [], queue := [], closer := .returned } : EventEmitter ρ).Kept
      (lost ++ (e.batch ++ e.queue)) := by
  have ht := h.stopped (by rw [hc]; nofun)
  have hrows : e.task.rows = [] := by rcases ht with ht | ht <;> rw [ht] <;> rfl
  have hfilling : e.task ≠ .filling := by rcases ht with ht | ht <;> rw [ht] <;> nofun
  refine ⟨fun r => ?_, h.dropped, fun _ => ht, nofun, fun hf => absurd hf hfilling, h.posting⟩
  have hr := h.rows r
  simp only [held, acceptances, hc, hrows, CloserAt.isDone, CloserAt.rows_flushing, if_true, if_false,
    Bool.false_eq_true, List.count_append, List.count_nil] at hr ⊢
  omega

/-- `flush` takes its next post off the queue, or ends. -/
theorem Kept.flushNext (h : e.Kept lost) (hc : e.closer = .flushing) (hclient : e.hasClient = true) :
    e.flush.Kept lost := by
  have ht := h.stopped (by rw [hc]; nofun)
  have hrows : e.task.rows = [] := by rcases ht with ht | ht <;> rw [ht] <;> rfl
  have hfilling : e.task ≠ .filling := by rcases ht with ht | ht <;> rw [ht] <;> nofun
  unfold EventEmitter.flush
  rw [hclient, if_neg (by simp)]
  split
  · next hbatch =>
    refine ⟨fun r => ?_, h.dropped, fun _ => ht, fun post hp => ?_, fun hf => absurd hf hfilling,
      h.posting⟩
    · have hr := h.rows r
      simp [held, acceptances, hc, hrows, CloserAt.isDone, Post.open] at hr ⊢
      omega
    · obtain rfl := CloserAt.posting.inj hp
      exact ⟨rfl, hbatch⟩
  · next hbatch =>
    rw [not_ne_iff] at hbatch
    split
    · next hqueue =>
      refine ⟨fun r => ?_, h.dropped, fun _ => ht, fun post hp => ?_,
        fun hf => absurd hf hfilling, h.posting⟩
      · have hr := h.rows r
        have hsplit : (e.queue.take batchRows).count r + (e.queue.drop batchRows).count r =
            e.queue.count r := by
          rw [← List.count_append, List.take_append_drop]
        simp [held, acceptances, hc, hrows, CloserAt.isDone, Post.open] at hr ⊢
        omega
      · obtain rfl := CloserAt.posting.inj hp
        refine ⟨hbatch, fun hnil => ?_⟩
        rcases List.take_eq_nil_iff.mp hnil with h0 | h0
        · cases h0
        · exact hqueue h0
    · next hqueue => exact h.close hc hbatch (not_ne_iff.mp hqueue)

theorem Kept.flush (h : e.Kept lost) : (e.step .flush).Kept (lost ++ e.loses .flush) := by
  cases hc : e.closer with
  | flushing =>
    have hstep : e.step .flush = e.flush := by simp [step, hc]
    rw [hstep]
    cases hclient : e.hasClient with
    | true =>
      have hnone : e.loses .flush = [] := by simp [loses, hclient]
      rw [hnone, List.append_nil]
      exact h.flushNext hc hclient
    | false =>
      have hall : e.loses .flush = e.batch ++ e.queue := by simp [loses, hc, hclient]
      have hflush : e.flush = { e with batch := [], queue := [], closer := .returned } := by
        rw [EventEmitter.flush, hclient, if_pos (by simp)]
      rw [hall, hflush]
      exact h.flushNone hc
  | uncalled | posting post | closing | returned =>
    have hstep : e.step .flush = e := by simp [step, hc]
    have hnone : e.loses .flush = [] := by simp [loses, hc]
    rw [hstep, hnone, List.append_nil]
    exact h

/-- What is on the queue is counted, and what was being posted is not. -/
theorem Kept.timeout (h : e.Kept lost) : (e.step .timeout).Kept (lost ++ e.loses .timeout) := by
  unfold step
  dsimp only
  split
  · next post hc =>
    have ht := h.stopped (by rw [hc]; nofun)
    have hrows : e.task.rows = [] := by rcases ht with ht | ht <;> rw [ht] <;> rfl
    have hdone : (e.drop e.queue).close.closer.isDone = true := by
      unfold EventEmitter.close
      dsimp only
      split <;> rfl
    refine ⟨fun r => ?_, ?_, fun _ => ht, fun post hp => ?_, h.filling, h.posting⟩
    · have hr := h.rows r
      have hheld : (e.drop e.queue).close.held r = 0 := by rw [held, hdone]; rfl
      rw [hheld]
      show e.emitted.count r = 0 + e.acceptances r + (e.counted ++ e.queue).count r +
        (lost ++ e.closer.rows).count r
      simp only [held, hc, (h.flushed post hc).1, hrows, CloserAt.isDone, if_false,
        Bool.false_eq_true, List.count_append, List.count_nil] at hr ⊢
      omega
    · simp [EventEmitter.close, drop, h.dropped]
    · rw [hp] at hdone
      cases hdone
  · next hc =>
    have hnone : e.loses .timeout = [] := by
      unfold loses
      cases he : e.closer with
      | posting post => exact absurd he (hc post)
      | uncalled | flushing | closing | returned => rfl
    rw [hnone, List.append_nil]
    exact h

/-- **Every step keeps track of every row.** -/
theorem Kept.step (h : e.Kept lost) (a : EmitterStep ρ) :
    (e.step a).Kept (lost ++ e.loses a) := by
  cases a with
  | emit row => exact h.emit row
  | aclose => exact h.aclose
  | timeout => exact h.timeout
  | get => exact (List.append_nil lost).symm ▸ h.get
  | postBatch => exact (List.append_nil lost).symm ▸ h.postBatch
  | answer ok => exact (List.append_nil lost).symm ▸ h.answer ok
  | resume => exact (List.append_nil lost).symm ▸ h.resume
  | flush => exact h.flush
  | start =>
    show (e.step .start).Kept (lost ++ [])
    rw [List.append_nil]
    unfold EventEmitter.step
    dsimp only
    split
    · next htask hc =>
      refine ⟨fun r => ?_, h.dropped, fun hne => absurd hc hne, h.flushed, nofun, nofun⟩
      have hr := h.rows r
      simp only [held, acceptances, htask, TaskAt.rows_unstarted, TaskAt.rows_waiting] at hr ⊢
      exact hr
    · exact h
  | closed =>
    show (e.step .closed).Kept (lost ++ [])
    rw [List.append_nil]
    unfold EventEmitter.step
    dsimp only
    split
    · next hc =>
      refine ⟨fun r => ?_, h.dropped, fun _ => h.stopped (by rw [hc]; nofun), nofun, h.filling,
        h.posting⟩
      have hr := h.rows r
      simp only [held, hc, CloserAt.isDone, if_true] at hr ⊢
      exact hr
    · exact h

/-- A step loses nothing exactly if it spares the rows. -/
theorem Kept.loses_eq_nil (h : e.Kept lost) (a : EmitterStep ρ) :
    e.loses a = [] ↔ e.Spares a := by
  cases a with
  | emit row =>
    simp only [loses, Spares]
    by_cases hc : e.closer = .closing
    · cases hfull : e.full <;> simp [hc]
    · simp [hc]
  | aclose =>
    simp only [loses, Spares]
    split
    · next hc =>
      rw [forall_prop_of_true hc]
      cases ht : e.task with
      | posting post =>
        rw [TaskAt.rows_posting, Post.open_eq_nil (h.posting post ht)]
        simp
      | unstarted | waiting | filling | ended => simp
    · next hc => simp [hc]
  | timeout =>
    simp only [loses, Spares]
    cases hc : e.closer with
    | posting post =>
      rw [CloserAt.rows_posting, Post.open_eq_nil (h.flushed post hc).2]
      simp
    | uncalled | flushing => simp
    | closing | returned => simp [CloserAt.rows]
  | flush =>
    simp only [loses, Spares]
    split
    · next hc => simp [hc]
    · next hc => exact iff_of_true rfl fun hf hn => absurd ⟨hf, hn⟩ hc
  | start | get | postBatch | answer | resume | closed => simp [loses, Spares]

/-! ## Any run -/

/-- The rows that the steps let go of. -/
def lostIn (e : EventEmitter ρ) : List (EmitterStep ρ) → List ρ
  | [] => []
  | a :: steps => e.loses a ++ lostIn (e.step a) steps

theorem Kept.run (h : e.Kept lost) (steps : List (EmitterStep ρ)) :
    (steps.foldl EventEmitter.step e).Kept (lost ++ e.lostIn steps) := by
  induction steps generalizing e lost with
  | nil =>
    rw [lostIn, List.append_nil]
    exact h
  | cons a steps ih =>
    rw [lostIn, ← List.append_assoc]
    exact ih (h.step a)

theorem Kept.lostIn_eq_nil (h : e.Kept lost) (steps : List (EmitterStep ρ)) :
    e.lostIn steps = [] ↔ Obeys EventEmitter.step Spares e steps := by
  induction steps generalizing e lost with
  | nil => exact iff_of_true rfl trivial
  | cons a steps ih =>
    rw [lostIn, List.append_eq_nil_iff, h.loses_eq_nil a, ih (h.step a)]
    rfl

/-- **When `aclose` has returned, every row was accepted in exactly one successful post or is
counted exactly once in the dropped total, if and only if no step of the run let go of a row.** -/
theorem accounted_iff (queueMax : Nat) (ownsHttp : Bool) (steps : List (EmitterStep ρ))
    (h : (steps.foldl EventEmitter.step
      { queueMax := queueMax, ownsHttp := ownsHttp }).closer = .returned) :
    (steps.foldl EventEmitter.step { queueMax := queueMax, ownsHttp := ownsHttp }).Accounted ↔
      Obeys EventEmitter.step Spares { queueMax := queueMax, ownsHttp := ownsHttp } steps := by
  have hstart := kept_start (ρ := ρ) queueMax ownsHttp
  have hkept := hstart.run steps
  rw [List.nil_append] at hkept
  rw [← hstart.lostIn_eq_nil steps]
  have hheld : ∀ r, held (steps.foldl EventEmitter.step
      { queueMax := queueMax, ownsHttp := ownsHttp }) r = 0 := fun r => by
    rw [held, h]
    rfl
  constructor
  · intro hacc
    refine List.eq_nil_iff_forall_not_mem.mpr fun r hr => ?_
    have hpos := List.count_pos_iff.mpr hr
    have hboth := hacc.rows r
    have hall := hkept.rows r
    rw [hheld] at hall
    omega
  · intro hnil
    refine ⟨fun r => ?_, hkept.dropped⟩
    have hall := hkept.rows r
    rw [hheld, hnil, List.count_nil] at hall
    omega

/-- A batch of one row is being posted when `aclose` is called. -/
def sampleHang : List (EmitterStep Nat) :=
  [.start, .emit 1, .get, .postBatch, .aclose, .flush, .closed]

/-- The row is neither accepted nor counted. -/
theorem cancelled_post_loses_rows : ∃ steps : List (EmitterStep Nat), steps = sampleHang ∧
    (steps.foldl EventEmitter.step {}).closer = .returned ∧
    ¬(steps.foldl EventEmitter.step {}).Accounted := by
  refine ⟨sampleHang, rfl, by decide, fun hacc => ?_⟩
  have hrow := hacc.rows 1
  revert hrow
  decide

/-- `aclose` is called while the batch is still filling. -/
def sampleFlush : List (EmitterStep Nat) :=
  [.start, .emit 1, .get, .aclose, .flush, .answer true, .resume, .flush, .closed]

theorem accounted_iff_sample : ∃ steps : List (EmitterStep Nat), steps = sampleFlush ∧
    (steps.foldl EventEmitter.step { queueMax := 10000, ownsHttp := true }).Accounted := by
  refine ⟨sampleFlush, rfl, (accounted_iff 10000 true sampleFlush (by decide)).mpr ?_⟩
  refine ⟨trivial, nofun, trivial, fun _ post hp => ?_, fun _ hc => ?_, trivial, trivial,
    fun _ hc => ?_, trivial, trivial⟩
  · cases hp
  · cases hc
  · cases hc

end EventEmitter

end Taas
