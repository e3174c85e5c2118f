import ServerCore.Web.RequestBody
import Mathlib.Data.List.Basic
import Mathlib.Data.List.Nodup
import Mathlib.Data.List.Range

/-! The credit of a streamed request body, the order in which its pieces are read, and its waiting reader. -/

namespace ServerCore.Web.RequestBody

open ServerCore.Core ServerCore.Foundations

section Available

lemma available_le {maximum retained pieces n : ℕ} (h : n ≤ available maximum retained pieces) :
    retained + n ≤ maximum ∨ n = 0 := by
  unfold available at h
  dsimp only at h
  split_ifs at h <;> omega

lemma available_anti {maximum retained retained' pieces pieces' : ℕ} (hr : retained' ≤ retained)
    (hp : pieces' ≤ pieces) : available maximum retained pieces ≤ available maximum retained' pieces' := by
  unfold available pieceOverheadBytes
  dsimp only
  split_ifs <;> omega

lemma available_room {maximum retained pieces n : ℕ} (hn : n ≠ 0) (hpieces : 1 ≤ pieces)
    (h : n ≤ available maximum retained pieces) :
    retained + n + pieceOverheadBytes * (pieces + 1) ≤ maximum := by
  unfold available pieceOverheadBytes at h
  unfold pieceOverheadBytes
  dsimp only at h
  split_ifs at h <;> omega

lemma available_free (maximum : ℕ) : available maximum 0 0 = maximum := by simp [available]

end Available

def PlaceOk (s : Body) : Prop :=
  match s.push with
  | .idle => True
  | .admitted bytes => bytes ≠ []
  | .loaded bytes retained => bytes ≠ [] ∧ s.retainedBytes ≤ retained
  | .checked bytes => bytes ≠ [] ∧ bytes.length ≤ available s.maximum s.retainedBytes s.pieceCount
  | .entered _ => 1 ≤ s.pieceCount → s.retainedBytes + pieceOverheadBytes * (s.pieceCount + 1) ≤ s.maximum
  | .unwinding _ => True

structure Ledger (s : Body) : Prop where
  retained : s.retainedBytes = s.pieces.total Piece.charge
  count : s.pieceCount = s.pieces.total Piece.places
  bound : s.retainedBytes ≤ s.maximum
  room : 2 ≤ s.pieceCount → s.retainedBytes + pieceOverheadBytes * s.pieceCount ≤ s.maximum
  place : PlaceOk s

def PushPlace.piece : PushPlace → Option ℕ
  | entered piece | unwinding piece => some piece
  | _ => none

def Body.sent (s : Body) : ℕ := s.push.piece.getD s.pieces.count

structure Order (s : Body) : Prop where
  last : ∀ piece, s.push.piece = some piece → piece + 1 = s.pieces.count
  entered : ∀ piece, s.push = .entered piece → s.stageAt piece = .entering
  unwinding : ∀ piece, s.push = .unwinding piece →
    s.stageAt piece = .held ∨ s.stageAt piece = .releasing ∨ s.stageAt piece = .released
  entering : ∀ i < s.pieces.count, s.stageAt i = .entering → s.push = .entered i
  order : ∀ queue, s.queue = some queue → s.read ++ queue = List.range s.sent
  read : ∃ n ≤ s.sent, s.read = List.range n
  queued : ∀ queue, s.queue = some queue → ∀ i ∈ queue, s.stageAt i = .queued
  waiting : ∀ i < s.pieces.count, s.stageAt i = .queued → ∃ queue, s.queue = some queue ∧ i ∈ queue
  discarded : ∀ i < s.pieces.count, s.stageAt i = .discarded → s.ending = true
  ending : s.ending = true → s.error ≠ .ok
  failed : s.queue = none ↔ s.error ≠ .ok
  done : s.done = true → s.error = .ok
  locked : s.push ≠ .idle → s.closed = false
  results : s.results.filterMap ReadResult.index = s.read
  seen : ∀ xs ys, s.results = xs ++ .finished :: ys →
    s.done = true ∧ s.queue = some [] ∧ xs.filterMap ReadResult.index = List.range s.pieces.count

structure Waits (s : Body) : Prop where
  registered : ∀ source, s.readWait = some source → s.queue = some [] ∧ s.closed = false ∧ source < s.subscriptions.count
  pending : ∀ source < s.subscriptions.count, (s.subscriptions.row source).isPending = true →
    s.readWait = some source ∨ source ∈ s.notifying

structure Inv (s : Body) : Prop where
  ledger : Ledger s
  order : Order s
  waits : Waits s

section Counters

variable {s s' : Body}

lemma PlaceOk.mono (h : PlaceOk s) (hpush : s'.push = s.push) (hmax : s'.maximum = s.maximum)
    (hr : s'.retainedBytes ≤ s.retainedBytes) (hp : s'.pieceCount ≤ s.pieceCount) : PlaceOk s' := by
  unfold PlaceOk at h ⊢
  rw [hpush, hmax]
  cases hplace : s.push with
  | idle | unwinding piece => trivial
  | admitted bytes =>
    rw [hplace] at h
    exact h
  | loaded bytes retained =>
    rw [hplace] at h
    exact ⟨h.1, hr.trans h.2⟩
  | checked bytes =>
    rw [hplace] at h
    exact ⟨h.1, h.2.trans (available_anti hr hp)⟩
  | entered piece =>
    rw [hplace] at h
    dsimp only at h ⊢
    intro hone
    have hroom := h (by omega)
    have hmul := Nat.mul_le_mul_left pieceOverheadBytes (Nat.add_le_add_right hp 1)
    omega

lemma Ledger.down (h : Ledger s) (hpush : s'.push = s.push) (hmax : s'.maximum = s.maximum)
    (hretained : s'.retainedBytes = s'.pieces.total Piece.charge) (hcount : s'.pieceCount = s'.pieces.total Piece.places)
    (hr : s'.retainedBytes ≤ s.retainedBytes) (hp : s'.pieceCount ≤ s.pieceCount) : Ledger s' := by
  constructor
  · exact hretained
  · exact hcount
  · rw [hmax]
    exact hr.trans h.bound
  · intro htwo
    have hroom := h.room (by omega)
    have hmul := Nat.mul_le_mul_left pieceOverheadBytes hp
    rw [hmax]
    omega
  · exact h.place.mono hpush hmax hr hp

lemma moveTo_stage (s : Body) (piece : ℕ) (stage : Stage) : ((s.moveTo piece stage).row piece).stage = stage := by
  rw [Body.moveTo, Table.set_row_self]

lemma moveTo_other {piece i : ℕ} (stage : Stage) (hne : i ≠ piece) :
    ((s.moveTo piece stage).row i).stage = s.stageAt i := by
  rw [Body.moveTo, Table.set_row_ne _ _ hne, Body.stageAt]

lemma of_moveTo {piece i : ℕ} {stage stage' : Stage} (hi : s'.stageAt i = stage') (hpieces : s'.pieces = s.moveTo piece stage)
    (hnot : stage' ≠ stage) : i ≠ piece ∧ s.stageAt i = stage' := by
  rw [Body.stageAt, hpieces] at hi
  have hne : i ≠ piece := by
    rintro rfl
    exact hnot (hi.symm.trans (moveTo_stage s i stage))
  exact ⟨hne, (moveTo_other stage hne).symm.trans hi⟩

lemma moveTo_total {piece : ℕ} (hlt : piece < s.pieces.count) (stage : Stage) (f : Piece → ℕ) :
    (s.moveTo piece stage).total f + f (s.pieces.row piece) =
      s.pieces.total f + f { s.pieces.row piece with stage } := Table.total_set hlt _ f

lemma Ledger.giveBack (h : Ledger s) {piece : ℕ} (hlt : piece < s.pieces.count)
    (hstage : s.stageAt piece = .held ∨ s.stageAt piece = .discarded) : Ledger (s.giveBack piece) := by
  have hcharge := moveTo_total hlt .releasing Piece.charge
  have hplaces := moveTo_total hlt .releasing Piece.places
  have hfull : (s.pieces.row piece).charge = (s.pieces.row piece).bytes.length ∧ (s.pieces.row piece).places = 1 := by
    unfold Piece.charge Piece.places
    unfold Body.stageAt at hstage
    obtain hstage | hstage := hstage <;> rw [hstage] <;> exact ⟨rfl, rfl⟩
  rw [hfull.1] at hcharge
  rw [hfull.2] at hplaces
  have hretained := h.retained
  have hcount := h.count
  refine h.down rfl rfl ?_ ?_ (Nat.sub_le _ _) le_rfl
  · show s.retainedBytes - (s.pieces.row piece).bytes.length = (s.moveTo piece .releasing).total Piece.charge
    have hzero : Piece.charge { s.pieces.row piece with stage := .releasing } = 0 := rfl
    omega
  · show s.pieceCount = (s.moveTo piece .releasing).total Piece.places
    have hone : Piece.places { s.pieces.row piece with stage := .releasing } = 1 := rfl
    omega

lemma Ledger.forget (h : Ledger s) {piece : ℕ} (hlt : piece < s.pieces.count)
    (hstage : s.stageAt piece = .releasing) : Ledger (s.forget piece) := by
  have hcharge := moveTo_total hlt .released Piece.charge
  have hplaces := moveTo_total hlt .released Piece.places
  have hfull : (s.pieces.row piece).charge = 0 ∧ (s.pieces.row piece).places = 1 := by
    unfold Piece.charge Piece.places
    unfold Body.stageAt at hstage
    rw [hstage]
    exact ⟨rfl, rfl⟩
  rw [hfull.1] at hcharge
  rw [hfull.2] at hplaces
  have hretained := h.retained
  have hcount := h.count
  refine h.down rfl rfl ?_ ?_ le_rfl (Nat.sub_le _ _)
  · show s.retainedBytes = (s.moveTo piece .released).total Piece.charge
    have hzero : Piece.charge { s.pieces.row piece with stage := .released } = 0 := rfl
    omega
  · show s.pieceCount - 1 = (s.moveTo piece .released).total Piece.places
    have hzero : Piece.places { s.pieces.row piece with stage := .released } = 0 := rfl
    omega

lemma Ledger.enter (h : Ledger s) {bytes : Bytes} (hpush : s.push = .checked bytes) : Ledger (s.enter bytes) := by
  have hplace := h.place
  unfold PlaceOk at hplace
  rw [hpush] at hplace
  obtain ⟨hne, hfits⟩ := hplace
  have hlength : bytes.length ≠ 0 := by simpa using hne
  have hbound := (available_le hfits).resolve_right hlength
  have hroom : 1 ≤ s.pieceCount →
      s.retainedBytes + bytes.length + pieceOverheadBytes * (s.pieceCount + 1) ≤ s.maximum :=
    fun hone => available_room hlength hone hfits
  constructor
  · show s.retainedBytes + bytes.length = (s.pieces.push ⟨bytes, .entering⟩).total Piece.charge
    rw [Table.total_push, h.retained]
    rfl
  · show s.pieceCount = (s.pieces.push ⟨bytes, .entering⟩).total Piece.places
    rw [Table.total_push, h.count]
    rfl
  · exact hbound
  · intro htwo
    have hroom := hroom (le_trans (by decide) htwo)
    rw [Nat.mul_add] at hroom
    show s.retainedBytes + bytes.length + pieceOverheadBytes * s.pieceCount ≤ s.maximum
    omega
  · exact hroom

/-- `Push` counts its piece, whether that is queued or given up. -/
lemma Ledger.counted (h : Ledger s) {piece : ℕ} {stage : Stage} (hpush : s.push = .entered piece)
    (hlt : piece < s.pieces.count) (hstage : s.stageAt piece = .entering) (hto : stage = .queued ∨ stage = .held)
    (hmax : s'.maximum = s.maximum) (hr : s'.retainedBytes = s.retainedBytes) (hp : s'.pieceCount = s.pieceCount + 1)
    (hpieces : s'.pieces = s.moveTo piece stage) (hplace' : PlaceOk s') : Ledger s' := by
  have hcharge := moveTo_total hlt stage Piece.charge
  have hplaces := moveTo_total hlt stage Piece.places
  have hfull : (s.pieces.row piece).charge = (s.pieces.row piece).bytes.length ∧ (s.pieces.row piece).places = 0 := by
    unfold Piece.charge Piece.places
    unfold Body.stageAt at hstage
    rw [hstage]
    exact ⟨rfl, rfl⟩
  rw [hfull.1] at hcharge
  rw [hfull.2] at hplaces
  have hplace := h.place
  unfold PlaceOk at hplace
  rw [hpush] at hplace
  have hretained := h.retained
  have hcount := h.count
  constructor
  · rw [hr, hpieces]
    have hlength : Piece.charge { s.pieces.row piece with stage } = (s.pieces.row piece).bytes.length := by
      obtain rfl | rfl := hto <;> rfl
    omega
  · rw [hp, hpieces]
    have hone : Piece.places { s.pieces.row piece with stage } = 1 := by
      obtain rfl | rfl := hto <;> rfl
    omega
  · rw [hr, hmax]
    exact h.bound
  · rw [hr, hp, hmax]
    intro htwo
    exact hplace (Nat.le_of_succ_le_succ htwo)
  · exact hplace'

lemma Ledger.leave (h : Ledger s) {piece : ℕ} (hlast : piece + 1 = s.pieces.count) (hstage : s.stageAt piece = .released) :
    Ledger s.leave := by
  have hempty : (s.pieces.row piece).charge = 0 ∧ (s.pieces.row piece).places = 0 := by
    unfold Piece.charge Piece.places
    unfold Body.stageAt at hstage
    rw [hstage]
    exact ⟨rfl, rfl⟩
  have hcharge := Table.total_pop hlast Piece.charge
  have hplaces := Table.total_pop hlast Piece.places
  rw [hempty.1] at hcharge
  rw [hempty.2] at hplaces
  exact ⟨h.retained.trans hcharge.symm, h.count.trans hplaces.symm, h.bound, h.room, trivial⟩

end Counters

section Sections

variable {s s' : Body}

lemma sent_of_none {s : Body} (h : s.push.piece = none) : s.sent = s.pieces.count := by rw [Body.sent, h, Option.getD_none]

lemma sent_of_piece {s : Body} {piece : ℕ} (h : s.push.piece = some piece) : s.sent = piece := by
  rw [Body.sent, h, Option.getD_some]

lemma Order.sent_le (h : Order s) : s.sent ≤ s.pieces.count := by
  cases hpush : s.push.piece with
  | none => exact (sent_of_none hpush).le
  | some piece =>
    rw [sent_of_piece hpush, ← h.last piece hpush]
    exact Nat.le_succ piece

lemma Order.mem_lt (h : Order s) {queue : List ℕ} (hqueue : s.queue = some queue) {i : ℕ} (hi : i ∈ queue) :
    i < s.pieces.count := by
  have hmem : i ∈ List.range s.sent := by
    rw [← h.order queue hqueue]
    exact List.mem_append_right _ hi
  exact lt_of_lt_of_le (List.mem_range.mp hmem) h.sent_le

lemma Ledger.keep (h : Ledger s) (hmax : s'.maximum = s.maximum) (hr : s'.retainedBytes = s.retainedBytes)
    (hp : s'.pieceCount = s.pieceCount) (hcharge : s'.pieces.total Piece.charge = s.pieces.total Piece.charge)
    (hplaces : s'.pieces.total Piece.places = s.pieces.total Piece.places) (hplace : PlaceOk s') : Ledger s' := by
  constructor
  · rw [hr, hcharge, h.retained]
  · rw [hp, hplaces, h.count]
  · rw [hr, hmax]
    exact h.bound
  · rw [hr, hp, hmax]
    exact h.room
  · exact hplace

lemma Ledger.beginPush (h : Ledger s) (bytes : Bytes) : Ledger (s.beginPush bytes) := by
  unfold Body.beginPush
  split_ifs with hrefused
  · exact h
  · simp only [Bool.or_eq_true, decide_eq_true_eq, not_or] at hrefused
    exact { h with place := hrefused.2 }

lemma Ledger.loadRetained (h : Ledger s) {bytes : Bytes} (hpush : s.push = .admitted bytes) :
    Ledger { s with push := .loaded bytes s.retainedBytes } := by
  have hplace := h.place
  unfold PlaceOk at hplace
  rw [hpush] at hplace
  exact { h with place := ⟨hplace, le_rfl⟩ }

lemma Ledger.check (h : Ledger s) {bytes : Bytes} {retained : ℕ} (hpush : s.push = .loaded bytes retained) :
    Ledger (s.check bytes retained) := by
  have hplace := h.place
  unfold PlaceOk at hplace
  rw [hpush] at hplace
  unfold Body.check
  split_ifs with hlarge
  · exact { h with place := trivial }
  · exact { h with place := ⟨hplace.1, (not_lt.mp hlarge).trans (available_anti hplace.2 le_rfl)⟩ }

lemma drop_charge (piece : Piece) : (Body.drop piece).charge = piece.charge := by
  unfold Body.drop Piece.charge
  split_ifs with hstage
  · rw [hstage]
  · rfl

lemma drop_places (piece : Piece) : (Body.drop piece).places = piece.places := by
  unfold Body.drop Piece.places
  split_ifs with hstage
  · rw [hstage]
  · rfl

lemma Ledger.finish (h : Ledger s) (hpush : s.push = .idle) (code : ErrorCode) : Ledger (s.finish code) := by
  have hplace (s' : Body) (hpush' : s'.push = .idle) : PlaceOk s' := by
    unfold PlaceOk
    rw [hpush']
    trivial
  unfold Body.finish
  split_ifs
  · exact h
  · exact { h with place := hplace _ hpush }
  · refine h.keep rfl rfl rfl ?_ ?_ (hplace _ hpush)
    · exact Table.total_congr rfl fun i _ => drop_charge _
    · exact Table.total_congr rfl fun i _ => drop_places _

lemma Ledger.readNext (h : Ledger s) (ho : Order s) : Ledger s.readNext := by
  unfold Body.readNext
  by_cases herror : s.error ≠ .ok
  · rw [if_pos herror]
    exact { h with place := h.place.mono rfl rfl le_rfl le_rfl }
  · rw [if_neg herror]
    split
    · rename_i piece rest hqueue
      have hstage := ho.queued _ hqueue piece List.mem_cons_self
      have hlt := ho.mem_lt hqueue List.mem_cons_self
      have hcharge := moveTo_total hlt .held Piece.charge
      have hplaces := moveTo_total hlt .held Piece.places
      have hfull : (s.pieces.row piece).charge = (s.pieces.row piece).bytes.length ∧ (s.pieces.row piece).places = 1 := by
        unfold Piece.charge Piece.places
        unfold Body.stageAt at hstage
        rw [hstage]
        exact ⟨rfl, rfl⟩
      rw [hfull.1] at hcharge
      rw [hfull.2] at hplaces
      have hheld : Piece.charge { s.pieces.row piece with stage := .held } = (s.pieces.row piece).bytes.length := rfl
      have hone : Piece.places { s.pieces.row piece with stage := .held } = 1 := rfl
      refine h.keep rfl rfl rfl ?_ ?_ (h.place.mono rfl rfl le_rfl le_rfl)
      · show (s.moveTo piece .held).total Piece.charge = s.pieces.total Piece.charge
        omega
      · show (s.moveTo piece .held).total Piece.places = s.pieces.total Piece.places
        omega
    · exact { h with place := h.place.mono rfl rfl le_rfl le_rfl }

lemma Ledger.waitForReadReady (h : Ledger s) : Ledger s.waitForReadReady := by
  have hplace (s' : Body) (hpush : s'.push = s.push) (hmax : s'.maximum = s.maximum)
      (hr : s'.retainedBytes = s.retainedBytes) (hp : s'.pieceCount = s.pieceCount) : PlaceOk s' :=
    h.place.mono hpush hmax hr.le hp.le
  unfold Body.waitForReadReady
  split_ifs
  · exact h
  · dsimp only
    split_ifs
    · exact { h with place := hplace _ rfl rfl rfl rfl }
    · exact { h with place := hplace _ rfl rfl rfl rfl }

end Sections

section Queue

variable {s s' : Body}

lemma entered_of_none {s : Body} (h : s.push.piece = none) (piece : ℕ) : s.push ≠ .entered piece := by
  intro heq
  rw [heq] at h
  cases h

lemma unwinding_of_none {s : Body} (h : s.push.piece = none) (piece : ℕ) : s.push ≠ .unwinding piece := by
  intro heq
  rw [heq] at h
  cases h

lemma Order.place (h : Order s) {place : PushPlace} (hbefore : s.push.piece = none) (hafter : place.piece = none)
    (hopen : place ≠ .idle → s.closed = false) : Order { s with push := place } := by
  have hnone : PushPlace.piece (Body.push { s with push := place }) = none := hafter
  have hsent : Body.sent { s with push := place } = s.sent := (sent_of_none hnone).trans (sent_of_none hbefore).symm
  exact { h with
    last := fun piece heq => absurd (hafter.symm.trans heq) nofun
    entered := fun piece heq => absurd heq (entered_of_none hnone piece)
    unwinding := fun piece heq => absurd heq (unwinding_of_none hnone piece)
    entering := fun i hi hstage => absurd (h.entering i hi hstage) (entered_of_none hbefore i)
    order := hsent ▸ h.order
    read := hsent ▸ h.read
    locked := hopen }

lemma Order.move (h : Order s) {piece : ℕ} {stage : Stage} (hfrom : s.stageAt piece ≠ .entering ∧ s.stageAt piece ≠ .queued)
    (hto : stage = .releasing ∨ stage = .released) (hpieces : s'.pieces = s.moveTo piece stage)
    (hpush : s'.push = s.push) (hqueue : s'.queue = s.queue) (hread : s'.read = s.read) (hresults : s'.results = s.results)
    (hdone : s'.done = s.done) (herror : s'.error = s.error) (hending : s'.ending = s.ending) : Order s' := by
  have hcount : s'.pieces.count = s.pieces.count := by rw [hpieces]; rfl
  have hsent : s'.sent = s.sent := by rw [Body.sent, hpush, hcount, Body.sent]
  have hclosed : s'.closed = s.closed := by rw [Body.closed, hdone, herror, Body.closed]
  have hself : s'.stageAt piece = stage := by rw [Body.stageAt, hpieces, moveTo_stage]
  have hother (i : ℕ) (hne : i ≠ piece) : s'.stageAt i = s.stageAt i := by
    rw [Body.stageAt, hpieces, moveTo_other stage hne]
  have hback {i : ℕ} {stage' : Stage} (hnot : stage' ≠ .releasing ∧ stage' ≠ .released) (hi : s'.stageAt i = stage') :
      s.stageAt i = stage' := by
    refine (of_moveTo hi hpieces ?_).2
    obtain rfl | rfl := hto
    · exact hnot.1
    · exact hnot.2
  constructor
  · simpa only [hpush, hcount] using h.last
  · intro i hi
    rw [hpush] at hi
    have hstage := h.entered i hi
    rw [hother i]
    · exact hstage
    · rintro rfl
      exact hfrom.1 hstage
  · intro i hi
    rw [hpush] at hi
    by_cases hne : i = piece
    · rw [hne, hself]
      exact .inr hto
    · rw [hother i hne]
      exact h.unwinding i hi
  · intro i hi hstage
    rw [hpush]
    exact h.entering i (hcount ▸ hi) (hback ⟨nofun, nofun⟩ hstage)
  · simpa only [hqueue, hread, hsent] using h.order
  · simpa only [hread, hsent] using h.read
  · intro queue hq i hi
    rw [hqueue] at hq
    have hstage := h.queued queue hq i hi
    rw [hother i]
    · exact hstage
    · rintro rfl
      exact hfrom.2 hstage
  · intro i hi hstage
    rw [hqueue]
    exact h.waiting i (hcount ▸ hi) (hback ⟨nofun, nofun⟩ hstage)
  · intro i hi hstage
    rw [hending]
    exact h.discarded i (hcount ▸ hi) (hback ⟨nofun, nofun⟩ hstage)
  · simpa only [hending, herror] using h.ending
  · simpa only [hqueue, herror] using h.failed
  · simpa only [hdone, herror] using h.done
  · simpa only [hpush, hclosed] using h.locked
  · simpa only [hresults, hread] using h.results
  · simpa only [hresults, hdone, hqueue, hcount] using h.seen

end Queue

section Moves

variable {s : Body}

lemma closed_eq_false : s.closed = false ↔ s.done = false ∧ s.error = .ok := by
  simp [Body.closed]

lemma Order.open_queue (h : Order s) (hopen : s.closed = false) : ∃ queue, s.queue = some queue := by
  apply Option.ne_none_iff_exists'.mp
  intro hnone
  exact h.failed.mp hnone (closed_eq_false.mp hopen).2

lemma snoc_split {α : Type*} {results xs ys : List α} {a b : α} (h : results ++ [a] = xs ++ b :: ys) :
    (xs = results ∧ a = b) ∨ ∃ zs, results = xs ++ b :: zs := by
  obtain rfl | ⟨zs, c, rfl⟩ := ys.eq_nil_or_concat'
  · obtain ⟨hxs, hb⟩ := List.append_inj' h rfl
    exact .inl ⟨hxs.symm, by simpa using hb⟩
  · rw [← List.cons_append, ← List.append_assoc] at h
    obtain ⟨hxs, _⟩ := List.append_inj' h rfl
    exact .inr ⟨zs, hxs⟩

lemma Order.enter (h : Order s) {bytes : Bytes} (hpush : s.push = .checked bytes) : Order (s.enter bytes) := by
  have hopen := h.locked (by rw [hpush]; nofun)
  have hnone : s.push.piece = none := by rw [hpush]; rfl
  have hsent : (s.enter bytes).sent = s.sent := (sent_of_none hnone).symm
  have hnew : (s.enter bytes).stageAt s.pieces.count = .entering := by
    show ((s.pieces.push ⟨bytes, .entering⟩).row s.pieces.count).stage = .entering
    rw [Table.push_row, if_pos rfl]
  have hold (i : ℕ) (hi : i < s.pieces.count) : (s.enter bytes).stageAt i = s.stageAt i := by
    show ((s.pieces.push ⟨bytes, .entering⟩).row i).stage = (s.pieces.row i).stage
    rw [Table.push_row, if_neg hi.ne]
  have hlast {i : ℕ} (hi : i < (s.enter bytes).pieces.count) : i < s.pieces.count ∨ i = s.pieces.count :=
    Nat.lt_succ_iff_lt_or_eq.mp hi
  constructor
  · rintro piece ⟨⟩
    rfl
  · rintro piece ⟨⟩
    exact hnew
  · nofun
  · intro i hi hstage
    obtain hlt | rfl := hlast hi
    · rw [hold i hlt] at hstage
      exact absurd (h.entering i hlt hstage) (entered_of_none hnone i)
    · rfl
  · rw [hsent]
    exact h.order
  · rw [hsent]
    exact h.read
  · intro queue hqueue i hi
    rw [hold i (h.mem_lt hqueue hi)]
    exact h.queued queue hqueue i hi
  · intro i hi hstage
    obtain hlt | rfl := hlast hi
    · rw [hold i hlt] at hstage
      exact h.waiting i hlt hstage
    · rw [hnew] at hstage
      cases hstage
  · intro i hi hstage
    obtain hlt | rfl := hlast hi
    · rw [hold i hlt] at hstage
      exact h.discarded i hlt hstage
    · rw [hnew] at hstage
      cases hstage
  · exact h.ending
  · exact h.failed
  · exact h.done
  · intro _
    exact hopen
  · exact h.results
  · intro xs ys hresults
    have hdone := (h.seen xs ys hresults).1
    rw [(closed_eq_false.mp hopen).1] at hdone
    cases hdone

lemma Order.enqueue (h : Order s) {piece : ℕ} (hpush : s.push = .entered piece) : Order (s.enqueue piece) := by
  have hopen := h.locked (by rw [hpush]; nofun)
  obtain ⟨queue, hqueue⟩ := h.open_queue hopen
  have hpiece : s.push.piece = some piece := by rw [hpush]; rfl
  have hcount := h.last piece hpiece
  have hsent := sent_of_piece hpiece
  have hsent' : (s.enqueue piece).sent = piece + 1 := hcount.symm
  have hself : (s.enqueue piece).stageAt piece = .queued := moveTo_stage ..
  have hother (i : ℕ) (hne : i ≠ piece) : (s.enqueue piece).stageAt i = s.stageAt i :=
    moveTo_other .queued hne
  have hqueue' : (s.enqueue piece).queue = some (queue ++ [piece]) := by
    show s.queue.map (· ++ [piece]) = some (queue ++ [piece])
    rw [hqueue]
    rfl
  constructor
  · nofun
  · nofun
  · nofun
  · intro i hi hstage
    by_cases hne : i = piece
    · subst hne
      rw [hself] at hstage
      cases hstage
    · rw [hother i hne] at hstage
      have hentered := h.entering i hi hstage
      rw [hpush] at hentered
      cases hentered
      exact absurd rfl hne
  · intro all hall
    rw [hqueue'] at hall
    cases hall
    rw [hsent', List.range_succ, ← List.append_assoc]
    have horder := h.order queue hqueue
    rw [hsent] at horder
    show s.read ++ queue ++ [piece] = List.range piece ++ [piece]
    rw [horder]
  · obtain ⟨n, hn, hread⟩ := h.read
    exact ⟨n, by omega, hread⟩
  · intro all hall i hi
    rw [hqueue'] at hall
    cases hall
    obtain hi | hi := List.mem_append.mp hi
    · by_cases hne : i = piece
      · rw [hne, hself]
      · rw [hother i hne]
        exact h.queued queue hqueue i hi
    · rw [List.mem_singleton.mp hi, hself]
  · intro i hi hstage
    refine ⟨_, hqueue', ?_⟩
    by_cases hne : i = piece
    · simp [hne]
    · rw [hother i hne] at hstage
      obtain ⟨all, hall, hmem⟩ := h.waiting i hi hstage
      rw [hqueue] at hall
      cases hall
      exact List.mem_append_left _ hmem
  · intro i hi hstage
    by_cases hne : i = piece
    · rw [hne, hself] at hstage
      cases hstage
    · rw [hother i hne] at hstage
      exact h.discarded i hi hstage
  · exact h.ending
  · rw [hqueue']
    have herror : (s.enqueue piece).error = .ok := (closed_eq_false.mp hopen).2
    rw [herror]
    simp
  · exact h.done
  · nofun
  · exact h.results
  · intro xs ys hresults
    have hdone := (h.seen xs ys hresults).1
    rw [(closed_eq_false.mp hopen).1] at hdone
    cases hdone

lemma Order.unwind (h : Order s) {piece : ℕ} (hpush : s.push = .entered piece) : Order (s.unwind piece) := by
  have hpiece : s.push.piece = some piece := by rw [hpush]; rfl
  have hsent : (s.unwind piece).sent = s.sent := (sent_of_piece hpiece).symm
  exact { h with
    last := fun _ heq => by cases heq; exact h.last piece hpiece
    entered := nofun
    unwinding := fun _ heq => by cases heq; exact .inl (moveTo_stage ..)
    entering := fun i hi hstage => by
      obtain ⟨hne, hstage⟩ := of_moveTo hstage rfl nofun
      exact absurd (PushPlace.entered.inj (hpush.symm.trans (h.entering i hi hstage))).symm hne
    order := hsent ▸ h.order
    read := hsent ▸ h.read
    queued := fun queue hqueue i hi => by
      have hstage := h.queued queue hqueue i hi
      refine (moveTo_other .held ?_).trans hstage
      rintro rfl
      rw [h.entered i hpush] at hstage
      cases hstage
    waiting := fun i hi hstage => h.waiting i hi (of_moveTo hstage rfl nofun).2
    discarded := fun i hi hstage => h.discarded i hi (of_moveTo hstage rfl nofun).2
    locked := fun _ => h.locked (by rw [hpush]; nofun) }

lemma Order.leave (h : Order s) {piece : ℕ} (hpush : s.push = .unwinding piece) : Order s.leave := by
  have hpiece : s.push.piece = some piece := by rw [hpush]; rfl
  have hcount : s.leave.pieces.count = piece := by
    show s.pieces.count - 1 = piece
    rw [← h.last piece hpiece, Nat.add_sub_cancel]
  have hsent : s.leave.sent = s.sent := hcount.trans (sent_of_piece hpiece).symm
  have hlt {i : ℕ} (hi : i < s.leave.pieces.count) : i < s.pieces.count := lt_of_lt_of_le hi (Nat.sub_le _ _)
  have hopen := h.locked (by rw [hpush]; nofun)
  exact { h with
    last := nofun
    entered := nofun
    unwinding := nofun
    entering := fun i hi hstage => by cases hpush.symm.trans (h.entering i (hlt hi) hstage)
    order := hsent ▸ h.order
    read := hsent ▸ h.read
    waiting := fun i hi => h.waiting i (hlt hi)
    discarded := fun i hi => h.discarded i (hlt hi)
    locked := fun hne => absurd rfl hne
    seen := fun xs ys hresults => absurd ((closed_eq_false.mp hopen).1.symm.trans (h.seen xs ys hresults).1) nofun }

lemma Order.beginPush (h : Order s) (hpush : s.push = .idle) (bytes : Bytes) : Order (s.beginPush bytes) := by
  unfold Body.beginPush
  split_ifs with hrefused
  · exact h
  · simp only [Bool.or_eq_true, decide_eq_true_eq, not_or, Bool.not_eq_true] at hrefused
    exact h.place (by rw [hpush]; rfl) rfl fun _ => hrefused.1.1

lemma Order.check (h : Order s) {bytes : Bytes} {retained : ℕ} (hpush : s.push = .loaded bytes retained) :
    Order (s.check bytes retained) := by
  have hopen := h.locked (by rw [hpush]; nofun)
  have hnone : s.push.piece = none := by rw [hpush]; rfl
  unfold Body.check
  split_ifs
  · exact h.place hnone rfl fun hne => absurd rfl hne
  · exact h.place hnone rfl fun _ => hopen

lemma Order.answer (h : Order s) {result : ReadResult} (hindex : result.index = none)
    (hresult : result = .finished → s.done = true ∧ s.queue = some [] ∧ s.read = List.range s.pieces.count) :
    Order { s with results := s.results ++ [result] } := by
  refine { h with results := ?_, seen := fun xs ys hresults => ?_ }
  · show (s.results ++ [result]).filterMap ReadResult.index = s.read
    rw [List.filterMap_append, h.results]
    simp [hindex]
  · obtain ⟨rfl, hlast⟩ | ⟨zs, hbefore⟩ := snoc_split hresults
    · obtain ⟨hdone, hqueue, hall⟩ := hresult hlast
      exact ⟨hdone, hqueue, by rw [h.results, hall]⟩
    · exact h.seen xs zs hbefore

lemma front_range {x y : List ℕ} {n : ℕ} (h : x ++ y = List.range n) : x = List.range x.length ∧ x.length ≤ n := by
  have hlength := congrArg List.length h
  rw [List.length_append, List.length_range] at hlength
  have htake := congrArg (List.take x.length) h
  rw [List.take_left, List.take_range, Nat.min_eq_left (by omega)] at htake
  exact ⟨htake, by omega⟩

lemma Order.readNext (h : Order s) (hpush : s.push = .idle) : Order s.readNext := by
  have hnone : s.push.piece = none := by rw [hpush]; rfl
  have hsent := sent_of_none hnone
  unfold Body.readNext
  by_cases herror : s.error ≠ .ok
  · rw [if_pos herror]
    exact h.answer rfl nofun
  · rw [if_neg herror]
    split
    · rename_i piece rest hqueue
      have horder := h.order _ hqueue
      have hlt := h.mem_lt hqueue List.mem_cons_self
      have hnodup : (s.read ++ piece :: rest).Nodup := by
        rw [horder]
        exact List.nodup_range
      have hfresh : piece ∉ rest := (List.nodup_cons.mp (List.nodup_append.mp hnodup).2.1).1
      have horder' : (s.read ++ [piece]) ++ rest = List.range s.sent := by
        rw [List.append_assoc]
        exact horder
      constructor
      · exact h.last
      · exact fun entered heq => absurd heq (entered_of_none hnone entered)
      · exact fun leaving heq => absurd heq (unwinding_of_none hnone leaving)
      · intro i hi hstage
        exact h.entering i hi (of_moveTo hstage rfl nofun).2
      · intro queue heq
        cases heq
        exact horder'
      · obtain ⟨hread, hle⟩ := front_range horder'
        exact ⟨_, hle, hread⟩
      · intro queue heq i hi
        cases heq
        have hne : i ≠ piece := by
          rintro rfl
          exact hfresh hi
        exact (moveTo_other .held hne).trans (h.queued _ hqueue i (List.mem_cons_of_mem _ hi))
      · intro i hi hstage
        obtain ⟨hne, hstage⟩ := of_moveTo hstage rfl nofun
        obtain ⟨queue, heq, hmem⟩ := h.waiting i hi hstage
        rw [hqueue] at heq
        cases heq
        exact ⟨rest, rfl, (List.mem_cons.mp hmem).resolve_left hne⟩
      · intro i hi hstage
        exact h.discarded i hi (of_moveTo hstage rfl nofun).2
      · exact h.ending
      · exact ⟨nofun, fun hne => absurd hne herror⟩
      · exact h.done
      · exact h.locked
      · show (s.results ++ [ReadResult.piece piece]).filterMap ReadResult.index = s.read ++ [piece]
        rw [List.filterMap_append, h.results]
        rfl
      · intro xs ys hresults
        obtain ⟨_, hlast⟩ | ⟨zs, hbefore⟩ := snoc_split hresults
        · cases hlast
        · have hempty := (h.seen xs zs hbefore).2.1
          rw [hqueue] at hempty
          cases hempty
    · rename_i hempty
      have hqueue : s.queue = some [] := by
        cases hq : s.queue with
        | none => exact absurd (h.failed.mp hq) herror
        | some queue =>
          cases queue with
          | nil => rfl
          | cons piece rest => exact absurd hq (hempty piece rest)
      by_cases hdone : s.done = true
      · rw [if_pos hdone]
        apply h.answer rfl
        intro _
        refine ⟨hdone, hqueue, ?_⟩
        have horder := h.order _ hqueue
        rwa [List.append_nil, hsent] at horder
      · rw [if_neg hdone]
        exact h.answer rfl nofun

lemma drop_stage {piece : Piece} {stage : Stage} (h : (Body.drop piece).stage = stage) :
    (stage ≠ .queued ∧ piece.stage = stage) ∨ (stage = .discarded ∧ piece.stage = .queued) := by
  unfold Body.drop at h
  split_ifs at h with hqueued
  · exact .inr ⟨h.symm, hqueued⟩
  · refine .inl ⟨?_, h⟩
    rintro rfl
    exact hqueued h

lemma Order.finish (h : Order s) (hpush : s.push = .idle) (code : ErrorCode) : Order (s.finish code) := by
  have hnone : s.push.piece = none := by rw [hpush]; rfl
  unfold Body.finish
  by_cases hclosed : s.closed = true
  · rw [if_pos hclosed]
    exact h
  · have hopen : s.closed = false := by simpa using hclosed
    obtain ⟨hdone, herror⟩ := closed_eq_false.mp hopen
    have hunseen : ∀ xs ys, s.results ≠ xs ++ .finished :: ys := by
      intro xs ys hresults
      have hseen := (h.seen xs ys hresults).1
      rw [hdone] at hseen
      cases hseen
    have hending : s.ending = false := by
      apply Bool.eq_false_iff.mpr
      intro hending
      exact h.ending hending herror
    rw [if_neg hclosed]
    dsimp only
    by_cases hcode : code = .ok
    · rw [if_pos hcode, hcode]
      exact { h with
        ending := fun hend => absurd (hending.symm.trans hend) nofun
        failed := ⟨fun hnil => absurd herror (h.failed.mp hnil), fun hne => absurd rfl hne⟩
        done := fun _ => rfl
        locked := fun hne => absurd hpush hne
        seen := fun xs ys hresults => absurd hresults (hunseen xs ys) }
    · rw [if_neg hcode]
      constructor
      · exact h.last
      · exact fun piece heq => absurd heq (entered_of_none hnone piece)
      · exact fun piece heq => absurd heq (unwinding_of_none hnone piece)
      · intro i hi hstage
        obtain ⟨_, hstage⟩ | ⟨hdiscarded, _⟩ := drop_stage hstage
        · exact h.entering i hi hstage
        · cases hdiscarded
      · nofun
      · exact h.read
      · nofun
      · intro i hi hstage
        obtain ⟨hne, _⟩ | ⟨hdiscarded, _⟩ := drop_stage hstage
        · exact absurd rfl hne
        · cases hdiscarded
      · intro _ _ _
        rfl
      · intro _
        exact hcode
      · exact ⟨fun _ => hcode, fun _ => rfl⟩
      · intro hdone
        exact absurd (by simpa using hdone) hcode
      · intro hne
        exact absurd hpush hne
      · exact h.results
      · intro xs ys hresults
        exact absurd hresults (hunseen xs ys)

lemma Order.returned (h : Order s) (hnone : ∀ i < s.pieces.count, s.stageAt i ≠ .discarded) :
    Order { s with ending := false } :=
  { h with discarded := fun i hi hstage => absurd hstage (hnone i hi), ending := nofun }

end Moves

section Readers

variable {s s' : Body}

lemma Waits.hand (h : Waits s) (hwait : s'.readWait = none) (hsubs : s'.subscriptions = s.subscriptions)
    (hnot : s'.notifying = s.notifying ++ s.readWait.toList) : Waits s' := by
  constructor
  · intro source hsource
    rw [hwait] at hsource
    cases hsource
  · intro source hlt hpending
    rw [hsubs] at hlt hpending
    rw [hnot]
    obtain hregistered | hmem := h.pending source hlt hpending
    · simp [hregistered]
    · simp [hmem]

lemma Waits.beginPush (h : Waits s) (bytes : Bytes) : Waits (s.beginPush bytes) := by
  unfold Body.beginPush
  split_ifs
  · exact h
  · exact { h with }

lemma Waits.check (h : Waits s) (bytes : Bytes) (retained : ℕ) : Waits (s.check bytes retained) := by
  unfold Body.check
  split_ifs <;> exact { h with }

lemma Waits.readNext (h : Waits s) : Waits s.readNext := by
  unfold Body.readNext
  by_cases herror : s.error ≠ .ok
  · rw [if_pos herror]
    exact { h with }
  · rw [if_neg herror]
    split
    · rename_i piece rest hqueue
      constructor
      · intro source hsource
        have hempty := (h.registered source hsource).1
        rw [hqueue] at hempty
        cases hempty
      · exact h.pending
    · exact { h with }

lemma Waits.finish (h : Waits s) (code : ErrorCode) : Waits (s.finish code) := by
  unfold Body.finish
  by_cases hclosed : s.closed = true
  · rw [if_pos hclosed]
    exact h
  · rw [if_neg hclosed]
    dsimp only
    split_ifs <;> exact h.hand rfl rfl rfl

lemma Waits.waitForReadReady (h : Waits s) (ho : Order s) : Waits s.waitForReadReady := by
  unfold Body.waitForReadReady
  by_cases htaken : (s.readWait.any fun i => (s.subscriptions.row i).isPending) = true
  · rw [if_pos htaken]
    exact h
  · rw [if_neg htaken]
    have hfree : ∀ source, s.readWait = some source → (s.subscriptions.row source).isPending ≠ true := by
      intro source hsource hpending
      rw [hsource] at htaken
      exact htaken hpending
    have hrow (i : ℕ) (hi : i < s.subscriptions.count) :
        (s.subscriptions.push ⟨(), .pending⟩).row i = s.subscriptions.row i := by
      rw [Table.push_row, if_neg hi.ne]
    dsimp only
    by_cases hready : Body.ready { s with subscriptions := s.subscriptions.push ⟨(), .pending⟩ } = true
    · rw [if_pos hready]
      constructor
      · intro source hsource
        obtain ⟨hqueue, hopen, hlt⟩ := h.registered source hsource
        exact ⟨hqueue, hopen, Nat.lt_succ_of_lt hlt⟩
      · intro source hlt hpending
        obtain hlt | rfl := Nat.lt_succ_iff_lt_or_eq.mp hlt
        · dsimp only at hpending
          rw [hrow source hlt] at hpending
          exact (h.pending source hlt hpending).imp_right (List.mem_append_left _)
        · exact .inr (List.mem_append_right _ List.mem_cons_self)
    · rw [if_neg hready]
      have hidle : s.closed = false ∧ s.queue.any (!·.isEmpty) = false := by
        simpa [Body.ready, Body.closed] using hready
      constructor
      · intro source hsource
        cases hsource
        obtain ⟨queue, hqueue⟩ := ho.open_queue hidle.1
        have hempty := hidle.2
        rw [hqueue] at hempty
        have hnil : queue = [] := by simpa using hempty
        refine ⟨?_, hidle.1, Nat.lt_succ_self _⟩
        rw [hqueue, hnil]
      · intro source hlt hpending
        obtain hlt | rfl := Nat.lt_succ_iff_lt_or_eq.mp hlt
        · dsimp only at hpending
          rw [hrow source hlt] at hpending
          obtain hregistered | hmem := h.pending source hlt hpending
          · exact absurd hpending (hfree source hregistered)
          · exact .inr hmem
        · exact .inl rfl

lemma Waits.update (h : Waits s) (source : ℕ) {f : Subscription Unit → Subscription Unit}
    (hf : ∀ subscription, (f subscription).isPending = false) : Waits (s.update source f) := by
  constructor
  · exact h.registered
  · intro i hi hpending
    by_cases hne : i = source
    · have hdone := hf (s.subscriptions.row source)
      rw [hne] at hpending
      unfold Body.update at hpending
      dsimp only at hpending
      rw [Table.set_row_self, hdone] at hpending
      cases hpending
    · unfold Body.update at hpending
      dsimp only at hpending
      rw [Table.set_row_ne _ _ hne] at hpending
      exact h.pending i hi hpending

lemma Waits.notify (h : Waits s) (source : ℕ) :
    Waits { s.update source (Subscription.complete .ok) with notifying := s.notifying.erase source } := by
  have hupdate := h.update source fun subscription => Subscription.complete_isPending .ok subscription
  constructor
  · exact hupdate.registered
  · intro i hi hpending
    have hne : i ≠ source := by
      rintro rfl
      unfold Body.update at hpending
      dsimp only at hpending
      rw [Table.set_row_self, Subscription.complete_isPending] at hpending
      cases hpending
    exact (hupdate.pending i hi hpending).imp_right (List.mem_erase_of_ne hne).mpr

end Readers

variable {s s' : Body}

lemma Inv.step {event : Event} (h : Inv s) (hstep : step s event = some s') : Inv s' := by
  cases event with
  | push bytes =>
    obtain ⟨hpush, rfl⟩ := of_guard hstep
    exact ⟨h.ledger.beginPush bytes, h.order.beginPush hpush bytes, h.waits.beginPush bytes⟩
  | loadRetained =>
    unfold RequestBody.step at hstep
    cases hpush : s.push with
    | admitted bytes =>
      rw [hpush] at hstep
      cases hstep
      refine ⟨h.ledger.loadRetained hpush, ?_, { h.waits with }⟩
      exact h.order.place (by rw [hpush]; rfl) rfl fun _ => h.order.locked (by rw [hpush]; nofun)
    | _ => simp [hpush] at hstep
  | loadPieces =>
    unfold RequestBody.step at hstep
    cases hpush : s.push with
    | loaded bytes retained =>
      rw [hpush] at hstep
      cases hstep
      exact ⟨h.ledger.check hpush, h.order.check hpush, h.waits.check bytes retained⟩
    | _ => simp [hpush] at hstep
  | charge =>
    unfold RequestBody.step at hstep
    cases hpush : s.push with
    | checked bytes =>
      rw [hpush] at hstep
      cases hstep
      exact ⟨h.ledger.enter hpush, h.order.enter hpush, { h.waits with }⟩
    | _ => simp [hpush] at hstep
  | enqueue =>
    unfold RequestBody.step at hstep
    cases hpush : s.push with
    | entered piece =>
      rw [hpush] at hstep
      cases hstep
      have hlast := h.order.last piece (by rw [hpush]; rfl)
      exact ⟨h.ledger.counted hpush (by omega) (h.order.entered piece hpush) (.inl rfl) rfl rfl rfl rfl trivial,
        h.order.enqueue hpush, h.waits.hand rfl rfl rfl⟩
    | _ => simp [hpush] at hstep
  | outOfMemory =>
    unfold RequestBody.step at hstep
    cases hpush : s.push with
    | checked bytes =>
      rw [hpush] at hstep
      cases hstep
      exact ⟨{ h.ledger with place := trivial },
        h.order.place (by rw [hpush]; rfl) rfl fun hne => absurd rfl hne, { h.waits with }⟩
    | entered piece =>
      rw [hpush] at hstep
      cases hstep
      have hlast := h.order.last piece (by rw [hpush]; rfl)
      exact ⟨h.ledger.counted hpush (by omega) (h.order.entered piece hpush) (.inr rfl) rfl rfl rfl rfl trivial,
        h.order.unwind hpush, { h.waits with }⟩
    | _ => simp [hpush] at hstep
  | unwound =>
    unfold RequestBody.step at hstep
    cases hpush : s.push with
    | unwinding piece =>
      simp only [hpush, Option.ite_none_right_eq_some, Option.some.injEq] at hstep
      obtain ⟨hstage, rfl⟩ := hstep
      exact ⟨h.ledger.leave (h.order.last piece (by rw [hpush]; rfl)) hstage, h.order.leave hpush,
        { h.waits with }⟩
    | _ => simp [hpush] at hstep
  | read =>
    obtain ⟨hpush, rfl⟩ := of_guard hstep
    exact ⟨h.ledger.readNext h.order, h.order.readNext hpush, h.waits.readNext⟩
  | release piece =>
    obtain ⟨⟨hlt, hstage⟩, rfl⟩ := of_guard hstep
    refine ⟨h.ledger.giveBack hlt (.inl hstage), ?_, { h.waits with }⟩
    exact @Order.move s (s.giveBack piece) h.order piece .releasing (by rw [hstage]; exact ⟨nofun, nofun⟩) (.inl rfl)
      rfl rfl rfl rfl rfl rfl rfl rfl
  | discard piece =>
    obtain ⟨⟨_, hlt, hstage⟩, rfl⟩ := of_guard hstep
    refine ⟨h.ledger.giveBack hlt (.inr hstage), ?_, { h.waits with }⟩
    exact @Order.move s (s.giveBack piece) h.order piece .releasing (by rw [hstage]; exact ⟨nofun, nofun⟩) (.inl rfl)
      rfl rfl rfl rfl rfl rfl rfl rfl
  | released piece =>
    obtain ⟨⟨hlt, hstage⟩, rfl⟩ := of_guard hstep
    refine ⟨h.ledger.forget hlt hstage, ?_, { h.waits with }⟩
    exact @Order.move s (s.forget piece) h.order piece .released (by rw [hstage]; exact ⟨nofun, nofun⟩) (.inr rfl)
      rfl rfl rfl rfl rfl rfl rfl rfl
  | finish code =>
    obtain ⟨hpush, rfl⟩ := of_guard hstep
    exact ⟨h.ledger.finish hpush code, h.order.finish hpush code, h.waits.finish code⟩
  | returned =>
    obtain ⟨⟨_, hnone⟩, rfl⟩ := of_guard hstep
    exact ⟨{ h.ledger with place := h.ledger.place.mono rfl rfl le_rfl le_rfl }, h.order.returned hnone,
      { h.waits with }⟩
  | wait =>
    obtain ⟨_, rfl⟩ := of_guard hstep
    refine ⟨h.ledger.waitForReadReady, ?_, h.waits.waitForReadReady h.order⟩
    unfold Body.waitForReadReady
    dsimp only
    split_ifs
    · exact h.order
    · exact { h.order with }
    · exact { h.order with }
  | cancelWait source =>
    obtain ⟨_, rfl⟩ := of_guard hstep
    exact ⟨{ h.ledger with place := h.ledger.place.mono rfl rfl le_rfl le_rfl },
      { h.order with }, h.waits.update source fun _ => Subscription.complete_isPending _ _⟩
  | resetWait source =>
    obtain ⟨_, rfl⟩ := of_guard hstep
    exact ⟨{ h.ledger with place := h.ledger.place.mono rfl rfl le_rfl le_rfl },
      { h.order with }, h.waits.update source fun _ => Subscription.reset_isPending _⟩
  | notify source =>
    obtain ⟨_, rfl⟩ := of_guard hstep
    exact ⟨{ h.ledger with place := h.ledger.place.mono rfl rfl le_rfl le_rfl },
      { h.order with }, h.waits.notify source⟩

def Fresh (s : Body) : Prop := ∃ maximum, 0 < maximum ∧ s = Body.create maximum

lemma Inv.fresh (h : Fresh s) : Inv s := by
  obtain ⟨maximum, _, rfl⟩ := h
  refine ⟨?_, ?_, ?_⟩
  · exact ⟨rfl, rfl, Nat.zero_le _, nofun, trivial⟩
  · constructor
    · nofun
    · nofun
    · nofun
    · nofun
    · intro queue heq
      cases heq
      rfl
    · exact ⟨0, le_rfl, rfl⟩
    · intro queue heq
      cases heq
      nofun
    · nofun
    · nofun
    · nofun
    · exact ⟨nofun, fun hne => absurd rfl hne⟩
    · nofun
    · intro hne
      exact absurd rfl hne
    · rfl
    · intro xs ys hresults
      exact absurd hresults (by simp [Body.create])
  · exact ⟨nofun, nofun⟩

lemma inv_of_reachable (h : Reachable step Fresh s) : Inv s :=
  h.invariant (fun _ hfresh => .fresh hfresh) fun _ _ _ hinv hstep => hinv.step hstep

section Later

structure After (s s' : Body) : Prop where
  maximum : s'.maximum = s.maximum
  failed : s.error ≠ .ok → s'.error = s.error ∧ s'.read = s.read
  sent : s.sent ≤ s'.sent
  bytes : ∀ i < s.sent, (s'.pieces.row i).bytes = (s.pieces.row i).bytes

lemma After.refl (s : Body) : After s s := ⟨rfl, fun _ => ⟨rfl, rfl⟩, le_rfl, fun _ _ => rfl⟩

lemma After.trans {s'' : Body} (h : After s s') (h' : After s' s'') : After s s'' := by
  constructor
  · rw [h'.maximum, h.maximum]
  · intro herror
    obtain ⟨hsame, hread⟩ := h.failed herror
    obtain ⟨hsame', hread'⟩ := h'.failed (by rwa [hsame])
    exact ⟨hsame'.trans hsame, hread'.trans hread⟩
  · exact h.sent.trans h'.sent
  · intro i hi
    rw [h'.bytes i (lt_of_lt_of_le hi h.sent), h.bytes i hi]

lemma After.still (hmax : s'.maximum = s.maximum) (herror : s'.error = s.error) (hread : s'.read = s.read)
    (hsent : s.sent ≤ s'.sent) (hbytes : ∀ i, (s'.pieces.row i).bytes = (s.pieces.row i).bytes) : After s s' :=
  ⟨hmax, fun _ => ⟨herror, hread⟩, hsent, fun i _ => hbytes i⟩

lemma moveTo_bytes (s : Body) (piece i : ℕ) (stage : Stage) :
    ((s.moveTo piece stage).row i).bytes = (s.pieces.row i).bytes := by
  rw [Body.moveTo, Table.set_row]
  split_ifs with heq
  · rw [heq]
  · rfl

lemma drop_bytes (piece : Piece) : (Body.drop piece).bytes = piece.bytes := by
  unfold Body.drop
  split_ifs <;> rfl

lemma After.readNext (s : Body) : After s s.readNext := by
  unfold Body.readNext
  by_cases herror : s.error ≠ .ok
  · rw [if_pos herror]
    exact .still rfl rfl rfl le_rfl fun _ => rfl
  · rw [if_neg herror]
    split
    · exact ⟨rfl, fun hne => absurd hne herror, le_rfl, fun i _ => moveTo_bytes s _ i _⟩
    · exact .still rfl rfl rfl le_rfl fun _ => rfl

lemma After.finish (s : Body) (code : ErrorCode) : After s (s.finish code) := by
  unfold Body.finish
  by_cases hclosed : s.closed = true
  · rw [if_pos hclosed]
    exact .refl s
  · have herror : s.error = .ok := (closed_eq_false.mp (by simpa using hclosed)).2
    rw [if_neg hclosed]
    dsimp only
    split_ifs
    · exact ⟨rfl, fun hne => absurd herror hne, le_rfl, fun _ _ => rfl⟩
    · exact ⟨rfl, fun hne => absurd herror hne, le_rfl, fun i _ => drop_bytes _⟩

/-- What `Push` does before its piece has a number. -/
lemma After.place {place : PushPlace} (hbefore : s.push.piece = none) (hafter : place.piece = none) :
    After s { s with push := place } := by
  refine .still rfl rfl rfl ?_ fun _ => rfl
  rw [sent_of_none hbefore]
  exact (sent_of_none (s := { s with push := place }) hafter).ge

lemma after_step {event : Event} (h : Order s) (hstep : step s event = some s') : After s s' := by
  cases event with
  | push bytes =>
    obtain ⟨hpush, rfl⟩ := of_guard hstep
    unfold Body.beginPush
    split_ifs
    · exact .refl s
    · exact .place (by rw [hpush]; rfl) rfl
  | loadRetained =>
    unfold RequestBody.step at hstep
    dsimp only at hstep
    split at hstep
    · rename_i hpush
      cases hstep
      exact .place (by rw [hpush]; rfl) rfl
    · cases hstep
  | loadPieces =>
    unfold RequestBody.step at hstep
    dsimp only at hstep
    split at hstep
    · rename_i hpush
      cases hstep
      unfold Body.check
      split_ifs <;> exact .place (by rw [hpush]; rfl) rfl
    · cases hstep
  | charge =>
    unfold RequestBody.step at hstep
    dsimp only at hstep
    split at hstep
    · rename_i bytes hpush
      cases hstep
      have hsent : s.sent = s.pieces.count := sent_of_none (by rw [hpush]; rfl)
      refine ⟨rfl, fun _ => ⟨rfl, rfl⟩, hsent.le, ?_⟩
      intro i hi
      show ((s.pieces.push ⟨bytes, .entering⟩).row i).bytes = (s.pieces.row i).bytes
      rw [Table.push_row, if_neg (hsent ▸ hi).ne]
    · cases hstep
  | enqueue =>
    unfold RequestBody.step at hstep
    dsimp only at hstep
    split at hstep
    · cases hstep
      exact .still rfl rfl rfl h.sent_le fun i => moveTo_bytes s _ i _
    · cases hstep
  | outOfMemory =>
    unfold RequestBody.step at hstep
    dsimp only at hstep
    split at hstep
    · rename_i hpush
      cases hstep
      exact .place (by rw [hpush]; rfl) rfl
    · rename_i piece hpush
      cases hstep
      exact .still rfl rfl rfl (sent_of_piece (by rw [hpush]; rfl)).le fun i => moveTo_bytes s _ i _
    · cases hstep
  | unwound =>
    unfold RequestBody.step at hstep
    dsimp only at hstep
    split at hstep
    · rename_i piece hpush
      obtain ⟨_, rfl⟩ := of_guard hstep
      have hpiece : s.push.piece = some piece := by rw [hpush]; rfl
      have hlast := h.last piece hpiece
      refine .still rfl rfl rfl ?_ fun _ => rfl
      rw [sent_of_piece hpiece]
      show piece ≤ s.pieces.count - 1
      omega
    · cases hstep
  | read =>
    obtain ⟨_, rfl⟩ := of_guard hstep
    exact .readNext s
  | release piece =>
    obtain ⟨_, rfl⟩ := of_guard hstep
    exact .still rfl rfl rfl le_rfl fun i => moveTo_bytes s _ i _
  | discard piece =>
    obtain ⟨_, rfl⟩ := of_guard hstep
    exact .still rfl rfl rfl le_rfl fun i => moveTo_bytes s _ i _
  | released piece =>
    obtain ⟨_, rfl⟩ := of_guard hstep
    exact .still rfl rfl rfl le_rfl fun i => moveTo_bytes s _ i _
  | finish code =>
    obtain ⟨_, rfl⟩ := of_guard hstep
    exact .finish s code
  | returned =>
    obtain ⟨_, rfl⟩ := of_guard hstep
    exact .still rfl rfl rfl le_rfl fun _ => rfl
  | wait =>
    obtain ⟨_, rfl⟩ := of_guard hstep
    unfold Body.waitForReadReady
    dsimp only
    split_ifs <;> exact .still rfl rfl rfl le_rfl fun _ => rfl
  | cancelWait source =>
    obtain ⟨_, rfl⟩ := of_guard hstep
    exact .still rfl rfl rfl le_rfl fun _ => rfl
  | resetWait source =>
    obtain ⟨_, rfl⟩ := of_guard hstep
    exact .still rfl rfl rfl le_rfl fun _ => rfl
  | notify source =>
    obtain ⟨_, rfl⟩ := of_guard hstep
    exact .still rfl rfl rfl le_rfl fun _ => rfl

lemma after_steps (h : Inv s) (hsteps : Steps step s s') : After s s' :=
  (hsteps.invariant (P := fun t => Inv t ∧ After s t) ⟨h, .refl s⟩ fun _ _ _ hafter hstep =>
    ⟨hafter.1.step hstep, hafter.2.trans (after_step hafter.1.order hstep)⟩).2

lemma maximum_pos (h : Reachable step Fresh s) : 0 < s.maximum := by
  obtain ⟨_, ⟨maximum, hpos, rfl⟩, hsteps⟩ := h
  rw [(after_steps (.fresh ⟨maximum, hpos, rfl⟩) hsteps).maximum]
  exact hpos

end Later

section Outcome

lemma ending_enabled (hending : s.ending = true) :
    (step s .returned).isSome = true ∨ ∃ piece, s.stageAt piece = .discarded ∧ (step s (.discard piece)).isSome = true := by
  by_cases hnone : ∀ i < s.pieces.count, s.stageAt i ≠ .discarded
  · refine .inl ?_
    show (if s.ending = true ∧ ∀ i < s.pieces.count, s.stageAt i ≠ .discarded then some { s with ending := false }
      else none).isSome = true
    rw [if_pos ⟨hending, hnone⟩]
    rfl
  · push Not at hnone
    obtain ⟨piece, hlt, hstage⟩ := hnone
    refine .inr ⟨piece, hstage, ?_⟩
    show (if s.ending = true ∧ piece < s.pieces.count ∧ s.stageAt piece = .discarded then some (s.giveBack piece)
      else none).isSome = true
    rw [if_pos ⟨hending, hlt, hstage⟩]
    rfl

lemma unwinding_enabled (h : Order s) {piece : ℕ} (hpush : s.push = .unwinding piece) :
    ∃ event ∈ [Event.release piece, .released piece, .unwound], (step s event).isSome = true := by
  have hlt : piece < s.pieces.count := by
    have := h.last piece (by rw [hpush]; rfl)
    omega
  obtain hstage | hstage | hstage := h.unwinding piece hpush
  · exact ⟨.release piece, by simp, by simp [step, hlt, hstage]⟩
  · exact ⟨.released piece, by simp, by simp [step, hlt, hstage]⟩
  · exact ⟨.unwound, by simp, by simp [step, hpush, hstage]⟩

lemma Ledger.free (h : Ledger s) (hall : ∀ i < s.pieces.count, s.stageAt i = .released) :
    s.retainedBytes = 0 ∧ s.pieceCount = 0 := by
  have hzero (f : Piece → ℕ) (hf : ∀ piece, piece.stage = .released → f piece = 0) : s.pieces.total f = 0 :=
    Finset.sum_eq_zero fun i hi => hf _ (hall i (Finset.mem_range.mp hi))
  constructor
  · rw [h.retained]
    apply hzero
    intro piece hstage
    rw [Piece.charge, hstage]
  · rw [h.count]
    apply hzero
    intro piece hstage
    rw [Piece.places, hstage]

lemma Ledger.places_le (h : Ledger s) : (s.pieceCount + 1) * pieceOverheadBytes ≤ s.maximum + 2 * pieceOverheadBytes := by
  unfold pieceOverheadBytes
  by_cases htwo : 2 ≤ s.pieceCount
  · have hroom := h.room htwo
    unfold pieceOverheadBytes at hroom
    omega
  · omega

theorem body_keeps_credit (h : Reachable step Fresh s) :
    (s.results.filterMap ReadResult.index = List.range s.read.length ∧
      (∀ queue, s.queue = some queue → List.range s.read.length ++ queue = List.range s.sent) ∧
      (∀ xs ys, s.results = xs ++ .finished :: ys →
        s.done = true ∧ xs.filterMap ReadResult.index = List.range s.pieces.count)) ∧
    (s.retainedBytes = s.pieces.total Piece.charge ∧ s.pieceCount = s.pieces.total Piece.places ∧
      s.retainedBytes ≤ s.maximum ∧ (s.pieceCount + 1) * pieceOverheadBytes ≤ s.maximum + 2 * pieceOverheadBytes) ∧
    ((2 ≤ s.pieceCount → s.retainedBytes + pieceOverheadBytes * s.pieceCount ≤ s.maximum) ∧
      ∀ piece, s.push = .entered piece → 1 ≤ s.pieceCount →
        s.retainedBytes + pieceOverheadBytes * (s.pieceCount + 1) ≤ s.maximum) ∧
    ((∀ i < s.pieces.count, s.stageAt i = .released) →
      s.retainedBytes = 0 ∧ available s.maximum s.retainedBytes s.pieceCount = s.maximum ∧ 0 < s.maximum) ∧
    (s.error ≠ .ok → (∀ s', Steps step s s' → s'.error = s.error ∧ s'.read = s.read) ∧
      (∀ i < s.pieces.count, s.stageAt i ≠ .queued ∧ (s.ending = false → s.stageAt i ≠ .discarded)) ∧
      (s.ending = true → (step s .returned).isSome = true ∨
        ∃ piece, s.stageAt piece = .discarded ∧ (step s (.discard piece)).isSome = true)) ∧
    ((∀ source, s.readWait = some source → s.queue = some [] ∧ s.done = false ∧ s.error = .ok) ∧
      ∀ source < s.subscriptions.count, (s.subscriptions.row source).isPending = true →
        s.readWait = some source ∨ source ∈ s.notifying) ∧
    (∀ s', Steps step s s' → s'.maximum = s.maximum ∧
      ∀ i < s.sent, (s'.pieces.row i).bytes = (s.pieces.row i).bytes) ∧
    ∀ piece, s.push = .unwinding piece →
      ∃ event ∈ [Event.release piece, .released piece, .unwound], (step s event).isSome = true := by
  have hinv := inv_of_reachable h
  have hread : s.read = List.range s.read.length := by
    obtain ⟨n, _, hread⟩ := hinv.order.read
    rw [hread, List.length_range]
  refine ⟨⟨?_, ?_, ?_⟩, ⟨hinv.ledger.retained, hinv.ledger.count, hinv.ledger.bound, hinv.ledger.places_le⟩,
    ⟨hinv.ledger.room, ?_⟩, ?_, ?_, ⟨?_, hinv.waits.pending⟩, ?_, ?_⟩
  · rw [hinv.order.results, ← hread]
  · intro queue hqueue
    rw [← hread]
    exact hinv.order.order queue hqueue
  · intro xs ys hresults
    obtain ⟨hdone, _, hall⟩ := hinv.order.seen xs ys hresults
    exact ⟨hdone, hall⟩
  · intro piece hpush
    have hplace := hinv.ledger.place
    unfold PlaceOk at hplace
    rw [hpush] at hplace
    exact hplace
  · intro hall
    obtain ⟨hretained, hcount⟩ := hinv.ledger.free hall
    rw [hretained, hcount]
    exact ⟨rfl, available_free _, maximum_pos h⟩
  · intro herror
    refine ⟨fun s' hsteps => (after_steps hinv hsteps).failed herror, ?_, fun hending => ending_enabled hending⟩
    intro i hi
    constructor
    · intro hstage
      obtain ⟨queue, hqueue, _⟩ := hinv.order.waiting i hi hstage
      rw [hinv.order.failed.mpr herror] at hqueue
      cases hqueue
    · intro hending hstage
      rw [hinv.order.discarded i hi hstage] at hending
      cases hending
  · intro source hsource
    obtain ⟨hqueue, hclosed, _⟩ := hinv.waits.registered source hsource
    exact ⟨hqueue, closed_eq_false.mp hclosed⟩
  · intro s' hsteps
    have hafter := after_steps hinv hsteps
    exact ⟨hafter.maximum, hafter.bytes⟩
  · exact fun piece hpush => unwinding_enabled hinv.order hpush

/-- Of two pieces one is read, and the other one is lost to `Cancel`; both are given back. -/
def readAndCancel : List Event :=
  [.push [1, 2], .loadRetained, .loadPieces, .charge, .enqueue, .push [3], .loadRetained, .loadPieces, .charge, .enqueue,
    .read, .release 0, .released 0, .finish .cancelled, .discard 1, .released 1, .read]

theorem body_keeps_credit_cancel : ∃ s, run step (.create 340) readAndCancel = some s ∧
    s.results = [.piece 0, .failed .cancelled] ∧ available s.maximum s.retainedBytes s.pieceCount = s.maximum ∧
    ∀ s', Steps step s s' → s'.error = s.error ∧ s'.read = s.read := by
  refine ⟨_, rfl, rfl, ?_⟩
  have hreached : Reachable step Fresh _ := ⟨.create 340, ⟨340, by decide, rfl⟩, readAndCancel, rfl⟩
  obtain ⟨-, -, -, hfree, hfailed, -⟩ := body_keeps_credit hreached
  refine ⟨(hfree ?_).2.1, (hfailed nofun).1⟩
  intro i hi
  match i, hi with
  | 0, _ => rfl
  | 1, _ => rfl

end Outcome

end ServerCore.Web.RequestBody
