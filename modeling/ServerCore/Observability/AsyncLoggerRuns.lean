import Mathlib.Data.List.Sublists
import ServerCore.Foundations.Transition
import ServerCore.Observability.AsyncLogger

/-! Rotation keeps the newest log. -/

namespace ServerCore.Observability.AsyncLogger

open ServerCore.Core ServerCore.Core.LogRecord ServerCore.Foundations

def order : ℕ → List Name
  | 0 => [.pending, .active]
  | retained + 1 => .rotated (retained + 1) :: order retained

def reading (retained : ℕ) (files : Files) : Bytes := Slots.joined (order retained) files

def Allowed (retained : ℕ) (operation : Operation) (before _after : Files) : Prop :=
  match operation with
  | .rename _ b => before b = none
  | .remove name => name = .rotated retained ∧ (∀ index, 1 ≤ index → index ≤ retained → before (.rotated index) ≠ none) ∧
      before .pending ≠ none
  | _ => True

def Event.Bounded (maximum : ℕ) (e : Event) : Prop :=
  e.operation = .write → ∀ content, e.after .active = some content → content.length ≤ maximum

/-- The lines that were given to the stream. -/
def Disk.given (d : Disk) : List Chunk := d.chunks.filter fun c => !c.again

/-- No close has written bytes of a failed write again. -/
def Disk.Plain (d : Disk) : Prop := ∀ c ∈ d.chunks, c.again = true → c.text = []

/-- The text `old` was there before the logger, and `lines` were to be written since. -/
structure DiskOk (retained maximum : ℕ) (old : Bytes) (lines : List Bytes) (d : Disk) : Prop where
  reads : reading retained d.files <:+ old ++ d.output
  events : ∀ e ∈ d.trace, reading retained e.after <:+ old ++ e.output ∧ e.output <+: d.output ∧
    Allowed retained e.operation e.before e.after
  bounded : d.Plain → ∀ e ∈ d.trace, e.Bounded maximum
  chunks : ∀ c ∈ d.chunks, c.opening ≤ d.openings
  given : ∀ c ∈ d.given, c.text <+: c.line ∧ (c.failed = false → c.text = c.line)
  torn : d.given.Pairwise fun c c' => c.failed = true → c.opening < c'.opening
  lines : (d.given.map Chunk.line).Sublist lines

section Order

variable {retained index : ℕ}

lemma rotated_not_mem (h : retained < index) : .rotated index ∉ order retained := by
  induction retained with
  | zero => simp [order]
  | succ retained ih =>
    rw [order, List.mem_cons, not_or, Name.rotated.injEq]
    exact ⟨by omega, ih (by omega)⟩

lemma order_nodup : (order retained).Nodup := by
  induction retained with
  | zero => simp [order]
  | succ retained ih => exact List.nodup_cons.mpr ⟨rotated_not_mem (Nat.lt_succ_self _), ih⟩

def Behind (retained : ℕ) (a b : Name) : Prop := ∃ x y, order retained = x ++ b :: a :: y

lemma Behind.succ {a b : Name} (h : Behind retained a b) : Behind (retained + 1) a b := by
  obtain ⟨x, y, h⟩ := h
  exact ⟨.rotated (retained + 1) :: x, y, by rw [order, h, List.cons_append]⟩

lemma behind_active : Behind retained .active .pending := by
  induction retained with
  | zero => exact ⟨[], [], rfl⟩
  | succ retained ih => exact ih.succ

lemma behind_pending (h : 1 ≤ retained) : Behind retained .pending (.rotated 1) := by
  induction retained, h using Nat.le_induction with
  | base => exact ⟨[], [.active], rfl⟩
  | succ retained _ ih => exact ih.succ

lemma behind_rotated (hpos : 1 ≤ index) (h : index + 1 ≤ retained) :
    Behind retained (.rotated index) (.rotated (index + 1)) := by
  induction retained, h using Nat.le_induction with
  | base =>
    obtain ⟨index, rfl⟩ := Nat.exists_eq_add_of_le' hpos
    exact ⟨[], order index, rfl⟩
  | succ retained _ ih => exact ih.succ

lemma order_active : ∃ x, order retained = x ++ [.active] ∧ .active ∉ x := by
  have hnodup := @order_nodup retained
  obtain ⟨x, hx⟩ : ∃ x, order retained = x ++ [.active] := by
    induction retained with
    | zero => exact ⟨[.pending], rfl⟩
    | succ retained ih =>
      obtain ⟨x, hx⟩ := ih order_nodup
      exact ⟨.rotated (retained + 1) :: x, by rw [order, hx, List.cons_append]⟩
  rw [hx] at hnodup
  exact ⟨x, hx, fun hm => (List.nodup_append.mp hnodup).2.2 _ hm _ (List.mem_singleton_self _) rfl⟩

lemma order_oldest (h : 1 ≤ retained) : ∃ x, order retained = .rotated retained :: x ∧ .rotated retained ∉ x := by
  obtain ⟨retained, rfl⟩ := Nat.exists_eq_add_of_le' h
  exact ⟨order retained, rfl, rotated_not_mem (Nat.lt_succ_self _)⟩

end Order

section Calls

variable {retained maximum : ℕ} {old : Bytes} {lines : List Bytes} {d : Disk}

lemma events_append {files : Files} {text output : Bytes} {operation : Operation}
    (h : ∀ e ∈ d.trace, reading retained e.after <:+ old ++ e.output ∧ e.output <+: d.output ∧
      Allowed retained e.operation e.before e.after)
    (houtput : output = d.output ++ text) (hreads : reading retained files <:+ old ++ output)
    (hallowed : Allowed retained operation d.files files) :
    ∀ e ∈ d.trace ++ [⟨operation, d.files, files, d.output ++ text⟩], reading retained e.after <:+ old ++ e.output ∧
      e.output <+: output ∧ Allowed retained e.operation e.before e.after := by
  subst houtput
  intro e he
  rcases List.mem_append.mp he with he | he
  · obtain ⟨h₁, h₂, h₃⟩ := h e he
    exact ⟨h₁, h₂.trans (List.prefix_append ..), h₃⟩
  · obtain rfl := List.mem_singleton.mp he
    exact ⟨hreads, List.prefix_refl _, hallowed⟩

lemma DiskOk.done (h : DiskOk retained maximum old lines d) {operation : Operation} {files : Files}
    (hother : operation ≠ .write) (hreads : reading retained files <:+ old ++ d.output)
    (hallowed : Allowed retained operation d.files files) :
    DiskOk retained maximum old lines (d.done operation files []) := by
  refine ⟨hreads, events_append h.events (List.append_nil _).symm hreads hallowed, fun hplain e he => ?_, h.chunks, h.given,
    h.torn, h.lines⟩
  rcases List.mem_append.mp he with he | he
  · exact h.bounded hplain e he
  · obtain rfl := List.mem_singleton.mp he
    exact fun hwrite => absurd hwrite hother

lemma DiskOk.same (h : DiskOk retained maximum old lines d) {operation : Operation} (hother : operation ≠ .write)
    (hallowed : Allowed retained operation d.files d.files) :
    DiskOk retained maximum old lines (d.done operation d.files []) := by
  exact h.done hother h.reads hallowed

lemma DiskOk.exists? (h : DiskOk retained maximum old lines d) (name : Name) :
    DiskOk retained maximum old lines (d.exists? name).2 ∧ (d.exists? name).2.files = d.files ∧
      ∀ found, (d.exists? name).1 = some found → found = (d.files name).isSome := by
  refine ⟨h.same nofun trivial, rfl, fun found hfound => ?_⟩
  rw [Disk.exists?] at hfound
  dsimp only at hfound
  split at hfound
  · cases hfound
  · exact (Option.some.inj hfound).symm

lemma DiskOk.rename (h : DiskOk retained maximum old lines d) {a b : Name} (hbehind : Behind retained a b)
    (hfree : d.files b = none) :
    DiskOk retained maximum old lines (d.rename a b).2 ∧
      ((d.rename a b).1 = false ∧ (d.rename a b).2.files = d.files ∨
        (d.rename a b).1 = true ∧ d.files a ≠ none ∧ (d.rename a b).2.files = Slots.move d.files a b) := by
  have hother : Operation.rename a b ≠ .write := by simp
  rw [Disk.rename]
  split
  · exact ⟨h.same hother hfree, .inl ⟨rfl, rfl⟩⟩
  · next hok =>
    refine ⟨h.done hother ?_ hfree, .inr ⟨rfl, fun hnone => hok (.inr hnone), rfl⟩⟩
    obtain ⟨x, y, horder⟩ := hbehind
    have hnodup := @order_nodup retained
    rw [horder] at hnodup
    rw [reading, horder, Slots.joined_move hnodup hfree, ← horder]
    exact h.reads

lemma DiskOk.remove (h : DiskOk retained maximum old lines d) (hretained : 1 ≤ retained)
    (hall : ∀ index, 1 ≤ index → index ≤ retained → d.files (.rotated index) ≠ none) (hpending : d.files .pending ≠ none) :
    DiskOk retained maximum old lines (d.remove (.rotated retained)).2 ∧
      (∀ name, name ≠ .rotated retained → (d.remove (.rotated retained)).2.files name = d.files name) ∧
      ((d.remove (.rotated retained)).1 = true → (d.remove (.rotated retained)).2.files (.rotated retained) = none) := by
  have hallowed (after : Files) : Allowed retained (.remove (.rotated retained)) d.files after :=
    ⟨rfl, hall, hpending⟩
  rw [Disk.remove]
  split
  · exact ⟨h.same nofun (hallowed _), fun _ _ => rfl, fun hno => by cases hno⟩
  · refine ⟨h.done nofun ?_ (hallowed _), fun name hne => Function.update_of_ne hne .., fun _ => Function.update_self ..⟩
    obtain ⟨x, horder, hx⟩ := order_oldest hretained
    have hreads := h.reads
    rw [reading, horder] at hreads ⊢
    exact (Slots.joined_drop hx).trans hreads

lemma DiskOk.openActive (h : DiskOk retained maximum old lines d) {truncate : Bool}
    (htruncate : truncate = true → d.files .active = none) :
    DiskOk retained maximum old lines (d.openActive truncate).2 ∧
      ((d.openActive truncate).2.files .active).getD [] = (d.files .active).getD [] ∧
      ∀ c ∈ (d.openActive truncate).2.chunks, c.opening < (d.openActive truncate).2.openings := by
  have hnext : DiskOk retained maximum old lines { d with openings := d.openings + 1 } := by
    exact ⟨h.reads, h.events, h.bounded, fun c hc => Nat.le_succ_of_le (h.chunks c hc), h.given, h.torn, h.lines⟩
  have hbefore : ∀ c ∈ d.chunks, c.opening < d.openings + 1 := fun c hc => Nat.lt_succ_of_le (h.chunks c hc)
  rw [Disk.openActive]
  dsimp only
  split
  · exact ⟨hnext.same nofun trivial, rfl, hbefore⟩
  · have hcontent : (if truncate then [] else (d.files .active).getD []) = (d.files .active).getD [] := by
      split
      · next ht => rw [htruncate ht, Option.getD_none]
      · rfl
    rw [hcontent]
    refine ⟨hnext.done nofun ?_ trivial, ?_, hbefore⟩
    · have hsame : reading retained (Function.update d.files .active (some ((d.files .active).getD []))) =
          reading retained d.files := by
        cases hactive : d.files .active with
        | none => exact Slots.joined_fill hactive
        | some content => rw [Option.getD_some, ← hactive, Function.update_eq_self]
      rw [hsame]
      exact h.reads
    · have hself : (Function.update d.files .active (some ((d.files .active).getD []))) .active = _ :=
        Function.update_self ..
      exact (congrArg (fun piece => Option.getD piece []) hself).trans rfl

lemma DiskOk.fileSize (h : DiskOk retained maximum old lines d) :
    DiskOk retained maximum old lines d.fileSize.2 ∧ d.fileSize.2.files = d.files ∧
      d.fileSize.2.chunks = d.chunks ∧ d.fileSize.2.openings = d.openings ∧
      ∀ size, d.fileSize.1 = some size → size = ((d.files .active).getD []).length := by
  refine ⟨h.same nofun trivial, rfl, rfl, rfl, fun size hsize => ?_⟩
  rw [Disk.fileSize] at hsize
  dsimp only at hsize
  split at hsize
  · cases hsize
  · obtain ⟨content, hcontent, rfl⟩ := Option.map_eq_some_iff.mp hsize
    rw [hcontent, Option.getD_some]

lemma DiskOk.later (h : DiskOk retained maximum old lines d) (line : Bytes) :
    DiskOk retained maximum old (lines ++ [line]) d :=
  ⟨h.reads, h.events, h.bounded, h.chunks, h.given, h.torn, h.lines.trans (List.sublist_append_left ..)⟩

lemma written_prefix (d : Disk) (line : Bytes) : d.written line <+: line := by
  rw [Disk.written]
  split
  · exact List.prefix_refl _
  · exact List.take_prefix ..

lemma extend_active (d : Disk) (operation : Operation) (line : Bytes) :
    (d.extend operation line).2.files .active = some ((d.files .active).getD [] ++ d.written line) := by
  exact Function.update_self Name.active (some ((d.files .active).getD [] ++ d.written line)) d.files

lemma extend_output (d : Disk) (operation : Operation) (line : Bytes) :
    (d.extend operation line).2.output = d.output ++ d.written line := by
  rw [Disk.output, Disk.extend, List.flatMap_append, List.flatMap_singleton]
  rfl

lemma extend_reads (h : DiskOk retained maximum old lines d) (operation : Operation) (line : Bytes) :
    reading retained (d.extend operation line).2.files <:+ old ++ (d.output ++ d.written line) := by
  obtain ⟨x, horder, hx⟩ := @order_active retained
  have hreads := h.reads
  rw [reading, horder] at hreads ⊢
  change Slots.joined (x ++ [.active]) (Function.update d.files .active _) <:+ _
  rw [Slots.joined_extend hx, ← List.append_assoc]
  obtain ⟨z, hz⟩ := hreads
  exact ⟨z, by rw [← hz, List.append_assoc]⟩

lemma extend_events (h : DiskOk retained maximum old lines d) {operation : Operation} (line : Bytes)
    (hallowed : Allowed retained operation d.files (d.extend operation line).2.files) :
    ∀ e ∈ (d.extend operation line).2.trace, reading retained e.after <:+ old ++ e.output ∧
      e.output <+: (d.extend operation line).2.output ∧ Allowed retained e.operation e.before e.after := by
  rw [extend_output]
  exact events_append h.events rfl (extend_reads h operation line) hallowed

lemma DiskOk.write (h : DiskOk retained maximum old lines d) {line : Bytes}
    (hfits : d.Plain → ((d.files .active).getD []).length + line.length ≤ maximum)
    (hgood : ∀ c ∈ d.chunks, c.failed = true → c.opening < d.openings) :
    DiskOk retained maximum old (lines ++ [line]) (d.extend .write line).2 ∧
      ((d.extend .write line).2.Plain → d.Plain) ∧
      (((d.extend .write line).2.files .active).getD []).length ≤ ((d.files .active).getD []).length + line.length ∧
      ((d.extend .write line).1 = true →
        ∀ c ∈ (d.extend .write line).2.chunks, c.failed = true → c.opening < (d.extend .write line).2.openings) := by
  have hbegins := written_prefix d line
  have hwhole (hok : d.fault.isSome = false) : d.written line = line := by
    have hnone : d.fault = none := by simpa using hok
    rw [Disk.written, hnone]
  have hplain (hp : (d.extend .write line).2.Plain) : d.Plain := fun c hc => hp c (List.mem_append_left _ hc)
  have hlength : (((d.files .active).getD []) ++ d.written line).length ≤ ((d.files .active).getD []).length + line.length := by
    rw [List.length_append]
    exact Nat.add_le_add_left hbegins.length_le _
  have hgiven : (d.extend .write line).2.given = d.given ++ [⟨line, d.written line, d.fault.isSome, d.openings, false⟩] := by
    rw [Disk.given, Disk.extend, List.filter_append]
    rfl
  refine ⟨⟨?_, extend_events h line trivial, ?_, ?_, ?_, ?_, ?_⟩, hplain, ?_, ?_⟩
  · rw [extend_output]
    exact extend_reads h .write line
  · intro hp e he
    rcases List.mem_append.mp he with he | he
    · exact h.bounded (hplain hp) e he
    · obtain rfl := List.mem_singleton.mp he
      intro _ content heq
      obtain rfl := Option.some.inj ((extend_active d .write line).symm.trans heq)
      exact hlength.trans (hfits (hplain hp))
  · intro c hc
    rcases List.mem_append.mp hc with hc | hc
    · exact h.chunks c hc
    · obtain rfl := List.mem_singleton.mp hc
      exact le_rfl
  · intro c hc
    rw [hgiven] at hc
    rcases List.mem_append.mp hc with hc | hc
    · exact h.given c hc
    · obtain rfl := List.mem_singleton.mp hc
      exact ⟨hbegins, hwhole⟩
  · rw [hgiven]
    apply List.pairwise_append.mpr ⟨h.torn, List.pairwise_singleton .., fun c hc c' hc' => ?_⟩
    obtain rfl := List.mem_singleton.mp hc'
    exact hgood c (List.mem_filter.mp hc).1
  · rw [hgiven, List.map_append]
    exact h.lines.append (.refl _)
  · rw [extend_active, Option.getD_some]
    exact hlength
  · intro hok c hc hfailed
    rcases List.mem_append.mp hc with hc | hc
    · exact hgood c hc hfailed
    · obtain rfl := List.mem_singleton.mp hc
      rw [Disk.extend, Option.isNone_iff_eq_none] at hok
      dsimp only at hfailed
      rw [hok] at hfailed
      cases hfailed

lemma DiskOk.close (h : DiskOk retained maximum old lines d) (line : Bytes) :
    DiskOk retained maximum old lines (d.extend .close line).2 ∧
      ((d.extend .close line).2.Plain →
        d.Plain ∧ ((d.extend .close line).2.files .active).getD [] = (d.files .active).getD []) := by
  have hplain (hp : (d.extend .close line).2.Plain) : d.Plain := fun c hc => hp c (List.mem_append_left _ hc)
  have hgiven : (d.extend .close line).2.given = d.given := by
    rw [Disk.given, Disk.extend, List.filter_append]
    exact List.append_nil _
  refine ⟨⟨?_, extend_events h line trivial, ?_, ?_, ?_, ?_, ?_⟩, fun hp => ⟨hplain hp, ?_⟩⟩
  · rw [extend_output]
    exact extend_reads h .close line
  · intro hp e he
    rcases List.mem_append.mp he with he | he
    · exact h.bounded (hplain hp) e he
    · obtain rfl := List.mem_singleton.mp he
      exact nofun
  · intro c hc
    rcases List.mem_append.mp hc with hc | hc
    · exact h.chunks c hc
    · obtain rfl := List.mem_singleton.mp hc
      exact le_rfl
  · rw [hgiven]
    exact h.given
  · rw [hgiven]
    exact h.torn
  · rw [hgiven]
    exact h.lines
  · have hnothing : d.written line = [] := hp _ (List.mem_append_right _ (List.mem_singleton_self _)) rfl
    rw [extend_active, Option.getD_some, hnothing, List.append_nil]

end Calls

section Archives

variable {retained maximum : ℕ} {old : Bytes} {lines : List Bytes} {d : Disk}

lemma firstFree_spec {left : ℕ} (h : DiskOk retained maximum old lines d) (hleft : left ≤ retained)
    (hused : ∀ index, 1 ≤ index → index + left ≤ retained → d.files (.rotated index) ≠ none) :
    DiskOk retained maximum old lines (firstFree retained left d).2 ∧ (firstFree retained left d).2.files = d.files ∧
      ∀ free, (firstFree retained left d).1 = some free → 1 ≤ free ∧
        (∀ index, 1 ≤ index → index < free → d.files (.rotated index) ≠ none) ∧
        (free ≤ retained → d.files (.rotated free) = none) := by
  induction left generalizing d with
  | zero =>
    refine ⟨h, rfl, fun free hfree => ?_⟩
    obtain rfl := Option.some.inj hfree
    exact ⟨by omega, fun index hpos hlt => hused index hpos (by omega), fun hle => by omega⟩
  | succ left ih =>
    obtain ⟨hok, hfiles, hfound⟩ := h.exists? (.rotated (retained - left))
    rw [firstFree]
    split
    · next d' heq =>
      rw [heq] at hok hfiles
      exact ⟨hok, hfiles, fun free hfree => by cases hfree⟩
    · next d' heq =>
      rw [heq] at hok hfiles hfound
      dsimp only at hok hfiles hfound
      have hsome := hfound true rfl
      have hih := @ih d' hok (by omega) (fun index hpos hle => ?_)
      · rwa [hfiles] at hih
      · rw [hfiles]
        by_cases hlast : index = retained - left
        · rw [hlast, ← Option.isSome_iff_ne_none]
          exact hsome.symm
        · exact hused index hpos (by omega)
    · next d' heq =>
      rw [heq] at hok hfiles hfound
      refine ⟨hok, hfiles, fun free hfree => ?_⟩
      obtain rfl := Option.some.inj hfree
      refine ⟨by omega, fun index hpos hlt => hused index hpos (by omega), fun _ => ?_⟩
      simpa using (hfound false rfl).symm

lemma shiftArchives_spec {index : ℕ} (h : DiskOk retained maximum old lines d) (hpos : 1 ≤ index) (hle : index ≤ retained)
    (hfree : d.files (.rotated index) = none) :
    DiskOk retained maximum old lines (shiftArchives index d).2 ∧
      (shiftArchives index d).2.files .active = d.files .active ∧
      (shiftArchives index d).2.files .pending = d.files .pending ∧
      ((shiftArchives index d).1 = true → (shiftArchives index d).2.files (.rotated 1) = none) := by
  induction index generalizing d with
  | zero => omega
  | succ index ih =>
    cases index with
    | zero => exact ⟨h, rfl, rfl, fun _ => hfree⟩
    | succ index =>
      obtain ⟨hok, hmoved⟩ := h.rename (behind_rotated (Nat.le_add_left 1 index) hle) hfree
      rw [shiftArchives]
      split
      · next d' heq =>
        rw [heq] at hok hmoved
        obtain ⟨-, hfiles⟩ | ⟨hno, -⟩ := hmoved
        · dsimp only at hfiles ⊢
          rw [hfiles]
          exact ⟨hok, rfl, rfl, fun hno => by cases hno⟩
        · cases hno
      · next d' heq =>
        rw [heq] at hok hmoved
        obtain ⟨hno, -⟩ | ⟨-, -, hfiles⟩ := hmoved
        · cases hno
        · dsimp only at hok hfiles
          have hsource : d'.files (.rotated (index + 1)) = none := by
            rw [hfiles]
            exact Slots.move_source (by simp)
          obtain ⟨hok', hactive, hpending, hone⟩ := ih hok (Nat.le_add_left 1 index) (Nat.le_of_succ_le hle) hsource
          refine ⟨hok', hactive.trans ?_, hpending.trans ?_, hone⟩
          · rw [hfiles]
            exact Slots.move_ne (by simp) (by simp)
          · rw [hfiles]
            exact Slots.move_ne (by simp) (by simp)

lemma makeRoom_spec {free : ℕ} (h : DiskOk retained maximum old lines d) (hretained : 1 ≤ retained)
    (hpending : d.files .pending ≠ none)
    (hused : ∀ index, 1 ≤ index → index < free → d.files (.rotated index) ≠ none)
    (hfree : free ≤ retained → d.files (.rotated free) = none) :
    DiskOk retained maximum old lines (makeRoom retained free d).2 ∧
      (makeRoom retained free d).2.files .active = d.files .active ∧
      (makeRoom retained free d).2.files .pending = d.files .pending ∧
      ((makeRoom retained free d).1 = true →
        (makeRoom retained free d).2.files (.rotated (if retained < free then retained else free)) = none) := by
  rw [makeRoom]
  split
  · next hlt =>
    obtain ⟨hok, hother, hgone⟩ := h.remove hretained (fun index hpos hle => hused index hpos (by omega)) hpending
    exact ⟨hok, hother _ (by simp), hother _ (by simp), hgone⟩
  · next hlt => exact ⟨h, rfl, rfl, fun _ => hfree (by omega)⟩

lemma archivePending_spec (h : DiskOk retained maximum old lines d) (hretained : 1 ≤ retained)
    (hpending : d.files .pending ≠ none) :
    DiskOk retained maximum old lines (archivePending retained d).2 ∧
      (archivePending retained d).2.files .active = d.files .active ∧
      ((archivePending retained d).1 = true → (archivePending retained d).2.files .pending = none) := by
  obtain ⟨hok, hfiles, hfound⟩ := firstFree_spec h le_rfl fun index hpos hle => by omega
  rw [archivePending]
  split
  · next d₁ heq =>
    rw [heq] at hok hfiles
    exact ⟨hok, congrFun hfiles _, fun hno => by cases hno⟩
  · next free d₁ heq =>
    rw [heq] at hok hfiles hfound
    dsimp only at hok hfiles
    obtain ⟨hpos, hused, hfree⟩ := hfound free rfl
    rw [← hfiles] at hused hfree hpending
    obtain ⟨hok₂, hactive₂, hpending₂, hroom⟩ := makeRoom_spec hok hretained hpending hused hfree
    have hactive₁ : d₁.files .active = d.files .active := congrFun hfiles _
    split
    · next d₂ heq₂ =>
      rw [heq₂] at hok₂ hactive₂
      exact ⟨hok₂, hactive₂.trans hactive₁, fun hno => by cases hno⟩
    · next d₂ heq₂ =>
      rw [heq₂] at hok₂ hactive₂ hpending₂ hroom
      have hbounds : 1 ≤ (if retained < free then retained else free) ∧
          (if retained < free then retained else free) ≤ retained := by split <;> omega
      obtain ⟨hok₃, hactive₃, hpending₃, hone⟩ := shiftArchives_spec hok₂ hbounds.1 hbounds.2 (hroom rfl)
      dsimp only at hactive₂ hpending₂
      split
      · next d₃ heq₃ =>
        rw [heq₃] at hok₃ hactive₃
        exact ⟨hok₃, (hactive₃.trans hactive₂).trans hactive₁, fun hno => by cases hno⟩
      · next d₃ heq₃ =>
        rw [heq₃] at hok₃ hactive₃ hpending₃ hone
        dsimp only at hok₃ hactive₃ hpending₃ hone
        have hactive : d₃.files .active = d.files .active := (hactive₃.trans hactive₂).trans hactive₁
        obtain ⟨hok₄, ⟨hno, hfiles₄⟩ | ⟨-, -, hfiles₄⟩⟩ := hok₃.rename (behind_pending hretained) (hone rfl)
        · exact ⟨hok₄, by rw [hfiles₄, hactive], fun hyes => by rw [hno] at hyes; cases hyes⟩
        · refine ⟨hok₄, ?_, fun _ => ?_⟩
          · rw [hfiles₄, Slots.move_ne (by simp) (by simp), hactive]
          · rw [hfiles₄]
            exact Slots.move_source (by simp)

lemma movePending_spec (h : DiskOk retained maximum old lines d) (hretained : 1 ≤ retained) :
    DiskOk retained maximum old lines (Logger.movePending retained d).2 ∧
      ((Logger.movePending retained d).1 = true ∧ (Logger.movePending retained d).2.files .active = none ∧
          (Logger.movePending retained d).2.files .pending ≠ none ∨
        (Logger.movePending retained d).1 = false ∧
          (Logger.movePending retained d).2.files .active = d.files .active) := by
  have hrename {d' : Disk} (hok : DiskOk retained maximum old lines d') (hactive : d'.files .active = d.files .active)
      (hfree : d'.files .pending = none) : DiskOk retained maximum old lines (d'.rename .active .pending).2 ∧
      ((d'.rename .active .pending).1 = true ∧ (d'.rename .active .pending).2.files .active = none ∧
          (d'.rename .active .pending).2.files .pending ≠ none ∨
        (d'.rename .active .pending).1 = false ∧ (d'.rename .active .pending).2.files .active = d.files .active) := by
    obtain ⟨hok', ⟨hno, hfiles⟩ | ⟨hyes, hsource, hfiles⟩⟩ := hok.rename behind_active hfree
    · exact ⟨hok', .inr ⟨hno, by rw [hfiles, hactive]⟩⟩
    · refine ⟨hok', .inl ⟨hyes, ?_, ?_⟩⟩
      · rw [hfiles]
        exact Slots.move_source (by simp)
      · rw [hfiles, Slots.move_target]
        exact hsource
  obtain ⟨hok, hfiles, hfound⟩ := h.exists? .pending
  rw [Logger.movePending]
  split
  · next d₁ heq =>
    rw [heq] at hok hfiles
    exact ⟨hok, .inr ⟨rfl, congrFun hfiles _⟩⟩
  · next d₁ heq =>
    rw [heq] at hok hfiles hfound
    dsimp only at hok hfiles
    apply hrename hok (congrFun hfiles _)
    rw [hfiles]
    simpa using (hfound false rfl).symm
  · next d₁ heq =>
    rw [heq] at hok hfiles hfound
    dsimp only at hok hfiles
    have hpending : d₁.files .pending ≠ none := by
      rw [hfiles, ← Option.isSome_iff_ne_none]
      exact (hfound true rfl).symm
    obtain ⟨hok₂, hactive₂, hfree⟩ := archivePending_spec hok hretained hpending
    have hactive₁ : d₁.files .active = d.files .active := congrFun hfiles _
    split
    · next d₂ heq₂ =>
      rw [heq₂] at hok₂ hactive₂
      exact ⟨hok₂, .inr ⟨rfl, hactive₂.trans hactive₁⟩⟩
    · next d₂ heq₂ =>
      rw [heq₂] at hok₂ hactive₂ hfree
      exact hrename hok₂ (hactive₂.trans hactive₁) (hfree rfl)

@[simp] lemma exists?_chunks (d : Disk) (name : Name) : (d.exists? name).2.chunks = d.chunks := rfl

@[simp] lemma rename_chunks (d : Disk) (a b : Name) : (d.rename a b).2.chunks = d.chunks := by
  rw [Disk.rename]
  split <;> rfl

@[simp] lemma openActive_chunks (d : Disk) (truncate : Bool) : (d.openActive truncate).2.chunks = d.chunks := by
  rw [Disk.openActive]
  dsimp only
  split <;> rfl

@[simp] lemma firstFree_chunks (retained left : ℕ) (d : Disk) : (firstFree retained left d).2.chunks = d.chunks := by
  induction left generalizing d with
  | zero => rfl
  | succ left ih =>
    have hfound := exists?_chunks d (.rotated (retained - left))
    rw [firstFree]
    split
    · next heq => rwa [heq] at hfound
    · next d' heq =>
      rw [heq] at hfound
      exact (ih d').trans hfound
    · next heq => rwa [heq] at hfound

@[simp] lemma makeRoom_chunks (retained free : ℕ) (d : Disk) : (makeRoom retained free d).2.chunks = d.chunks := by
  rw [makeRoom, Disk.remove]
  split_ifs <;> rfl

@[simp] lemma shiftArchives_chunks (index : ℕ) (d : Disk) : (shiftArchives index d).2.chunks = d.chunks := by
  induction index generalizing d with
  | zero => rfl
  | succ index ih =>
    cases index with
    | zero => rfl
    | succ index =>
      have hmoved := rename_chunks d (.rotated (index + 1)) (.rotated (index + 2))
      rw [shiftArchives]
      split
      · next heq => rwa [heq] at hmoved
      · next d' heq =>
        rw [heq] at hmoved
        exact (ih d').trans hmoved

@[simp] lemma archivePending_chunks (retained : ℕ) (d : Disk) : (archivePending retained d).2.chunks = d.chunks := by
  have hfound := firstFree_chunks retained retained d
  rw [archivePending]
  split
  · next heq => rwa [heq] at hfound
  · next free d₁ heq =>
    rw [heq] at hfound
    have hroom := makeRoom_chunks retained free d₁
    split
    · next heq₂ =>
      rw [heq₂] at hroom
      exact hroom.trans hfound
    · next d₂ heq₂ =>
      rw [heq₂] at hroom
      have hshifted := shiftArchives_chunks (if retained < free then retained else free) d₂
      split
      · next heq₃ =>
        rw [heq₃] at hshifted
        exact (hshifted.trans hroom).trans hfound
      · next d₃ heq₃ =>
        rw [heq₃] at hshifted
        exact ((rename_chunks d₃ _ _).trans (hshifted.trans hroom)).trans hfound

@[simp] lemma movePending_chunks (retained : ℕ) (d : Disk) : (Logger.movePending retained d).2.chunks = d.chunks := by
  have hfound := exists?_chunks d .pending
  rw [Logger.movePending]
  split
  · next heq => rwa [heq] at hfound
  · next d₁ heq =>
    rw [heq] at hfound
    exact (rename_chunks d₁ _ _).trans hfound
  · next d₁ heq =>
    rw [heq] at hfound
    have harchived := archivePending_chunks retained d₁
    split
    · next heq₂ =>
      rw [heq₂] at harchived
      exact harchived.trans hfound
    · next d₂ heq₂ =>
      rw [heq₂] at harchived
      exact (rename_chunks d₂ _ _).trans (harchived.trans hfound)

end Archives

/-- The logger writes to a file under its limit, and goes on behind a failed line only when it has opened it again. -/
structure LoggerOk (options : Options) (old : Bytes) (lines : List Bytes) (l : Logger) : Prop where
  file : l.options.file = options.file
  retainedFiles : l.options.retainedFiles = options.retainedFiles
  maxFileBytes : l.options.maxFileBytes = options.maxFileBytes
  disk : DiskOk options.retainedFiles options.maxFileBytes old lines l.disk
  size : l.disk.Plain → ((l.disk.files .active).getD []).length ≤ l.fileBytes
  current : l.isOpen = true → l.good = true → ∀ c ∈ l.disk.chunks, c.failed = true → c.opening < l.disk.openings

section Output

variable {options : Options} {old : Bytes} {lines : List Bytes} {l : Logger} {line : Bytes}

lemma LoggerOk.reopen (h : LoggerOk options old lines l) {d : Disk} {truncate : Bool}
    (hdisk : DiskOk options.retainedFiles options.maxFileBytes old lines d)
    (htruncate : truncate = true → d.files .active = none)
    (hsize : d.Plain → ((d.files .active).getD []).length ≤ l.fileBytes) :
    LoggerOk options old lines ({ l with disk := d }.reopen truncate) := by
  obtain ⟨hopened, hsame, hopening⟩ := hdisk.openActive htruncate
  obtain ⟨hsized, hfiles, hchunks, hopenings, hexact⟩ := hopened.fileSize
  refine ⟨h.file, h.retainedFiles, h.maxFileBytes, hsized, fun hplain => ?_, fun _ _ c hc _ => ?_⟩
  · rw [Logger.reopen]
    dsimp only
    rw [hfiles, hsame]
    cases hfound : (d.openActive truncate).2.fileSize.1 with
    | none =>
      apply hsize
      rw [Disk.Plain, ← openActive_chunks d truncate, ← hchunks]
      exact hplain
    | some size =>
      rw [hexact size hfound, hsame]
      exact le_rfl
  · rw [Logger.reopen] at hc ⊢
    dsimp only at hc ⊢
    rw [hchunks] at hc
    rw [hopenings]
    exact hopening c hc

lemma LoggerOk.close (h : LoggerOk options old lines l) : LoggerOk options old lines l.close := by
  rw [Logger.close]
  split
  · exact ⟨h.file, h.retainedFiles, h.maxFileBytes, h.disk, h.size, fun _ hno => by cases hno⟩
  · split
    · exact ⟨h.file, h.retainedFiles, h.maxFileBytes, h.disk, h.size, fun hno => by cases hno⟩
    · obtain ⟨hdisk, hsame⟩ := h.disk.close l.pending
      refine ⟨h.file, h.retainedFiles, h.maxFileBytes, hdisk, fun hplain => ?_, fun hno => by cases hno⟩
      obtain ⟨hplain', hactive⟩ := hsame hplain
      dsimp only
      rw [hactive]
      exact h.size hplain'

lemma LoggerOk.rotate (h : LoggerOk options old lines l) (hretained : 1 ≤ options.retainedFiles) :
    LoggerOk options old lines l.rotate.2 := by
  have hclosed := h.close
  obtain ⟨hok, hmoved⟩ := movePending_spec hclosed.disk hretained
  have hchunks := movePending_chunks options.retainedFiles l.close.disk
  rw [Logger.rotate]
  dsimp only
  rw [hclosed.retainedFiles]
  split
  · next d heq =>
    rw [heq] at hok hmoved hchunks
    obtain ⟨hyes, -⟩ | ⟨-, hactive⟩ := hmoved
    · cases hyes
    · refine hclosed.reopen hok (fun hno => by cases hno) fun hplain => ?_
      dsimp only at hactive hchunks
      rw [hactive]
      apply hclosed.size
      rw [Disk.Plain, ← hchunks]
      exact hplain
  · next d heq =>
    rw [heq] at hok hmoved
    obtain ⟨-, hactive, hpending⟩ | ⟨hno, -⟩ := hmoved
    · obtain ⟨hok', hactive', -⟩ := archivePending_spec hok hretained hpending
      dsimp only at hactive
      rw [hactive] at hactive'
      exact hclosed.reopen hok' (fun _ => hactive') fun _ => by rw [hactive']; exact Nat.zero_le _
    · cases hno

lemma LoggerOk.later (h : LoggerOk options old lines l) (line : Bytes) :
    LoggerOk options old (lines ++ [line]) l :=
  ⟨h.file, h.retainedFiles, h.maxFileBytes, h.disk.later line, h.size, h.current⟩

lemma LoggerOk.append (h : LoggerOk options old lines l) (hfits : l.fits line = true) :
    LoggerOk options old (lines ++ [line]) (l.append line) := by
  have hroom (hplain : l.disk.Plain) : ((l.disk.files .active).getD []).length + line.length ≤ options.maxFileBytes := by
    have hsize := h.size hplain
    simp only [Logger.fits, h.maxFileBytes, Bool.and_eq_true, decide_eq_true_eq] at hfits
    omega
  rw [Logger.append]
  split
  · next hopen =>
    obtain ⟨hisOpen, hgood⟩ := Bool.and_eq_true_iff.mp hopen
    obtain ⟨hok, hplain, hlength, hcurrent⟩ := h.disk.write hroom (h.current hisOpen hgood)
    exact ⟨h.file, h.retainedFiles, h.maxFileBytes, hok,
      fun hp => hlength.trans (Nat.add_le_add_right (h.size (hplain hp)) _), fun _ hgood' => hcurrent hgood'⟩
  · have hlater := h.later line
    exact ⟨h.file, h.retainedFiles, h.maxFileBytes, hlater.disk, fun hp => Nat.le_add_right_of_le (h.size hp),
      fun _ hno => by cases hno⟩

lemma LoggerOk.writeConsole (h : LoggerOk options old lines l) : LoggerOk options old lines l.writeConsole.2 := by
  rw [Logger.writeConsole]
  split
  · exact ⟨h.file, h.retainedFiles, h.maxFileBytes, h.disk.same nofun trivial, h.size, h.current⟩
  · exact h

lemma LoggerOk.output (h : LoggerOk options old lines l) (hretained : 1 ≤ options.retainedFiles) (line : Bytes) :
    LoggerOk options old (lines ++ [line]) (l.output line).2 := by
  have hprinted := h.writeConsole
  have hrotated := hprinted.rotate hretained
  rw [Logger.output]
  dsimp only
  split
  · exact hprinted.later line
  · split
    · next hfits => exact hprinted.append hfits
    · split
      · exact hrotated.later line
      · next hfits => exact hrotated.append (by simpa using hfits)

end Output

structure Inv (options : Options) (old : Bytes) (s : State) : Prop where
  logger : LoggerOk options old (s.taken.map format) s.logger
  accepted : s.accepted = s.taken ++ s.queue
  lines : ∀ record ∈ s.accepted, ∃ body, format record = body ++ [10] ∧ ∀ b ∈ body, 32 ≤ b

section Lines

lemma escapeText_printable (value : Byte) : ∀ b ∈ escapeText value, 32 ≤ b := by
  have h : ((escapeText value).all fun b => 32 ≤ b) = true := by
    revert value
    apply byte_cases
    decide +kernel
  simpa using h

lemma format_line (record : Record) (h : record.structured = true → ∀ b ∈ record.message, 32 ≤ b) :
    ∃ body, format record = body ++ [10] ∧ ∀ b ∈ body, 32 ≤ b := by
  have htimestamp : ∀ b ∈ toStringInt64 record.timestamp, 32 ≤ b := fun b hb =>
    ((clean_toStringInt64 record.timestamp).2 b hb).1
  rw [format]
  split
  · next hstructured =>
    refine ⟨_, rfl, fun b hb => ?_⟩
    have hopen : (ascii "\x7b\"timestamp_ms\":").all (32 ≤ ·) = true := by decide
    have hcomma : (ascii ",").all (32 ≤ ·) = true := by decide
    rcases List.mem_append.mp hb with hb | hb
    · rcases List.mem_append.mp hb with hb | hb
      · rcases List.mem_append.mp hb with hb | hb
        · exact of_decide_eq_true (List.all_eq_true.mp hopen b hb)
        · exact htimestamp b hb
      · exact of_decide_eq_true (List.all_eq_true.mp hcomma b hb)
    · exact h hstructured b (List.mem_of_mem_drop hb)
  · refine ⟨_, rfl, fun b hb => ?_⟩
    have hspace : (ascii " ").all (32 ≤ ·) = true := by decide
    have htag : (levelTag record.level).all (32 ≤ ·) = true := by cases record.level <;> decide
    rcases List.mem_append.mp hb with hb | hb
    · rcases List.mem_append.mp hb with hb | hb
      · rcases List.mem_append.mp hb with hb | hb
        · rcases List.mem_append.mp hb with hb | hb
          · exact htimestamp b hb
          · exact of_decide_eq_true (List.all_eq_true.mp hspace b hb)
        · exact of_decide_eq_true (List.all_eq_true.mp htag b hb)
      · exact of_decide_eq_true (List.all_eq_true.mp hspace b hb)
    · obtain ⟨value, -, hv⟩ := List.mem_flatMap.mp hb
      exact escapeText_printable value b hv

end Lines

section Steps

variable {options : Options} {old : Bytes} {s t : State}

lemma Inv.reject (h : Inv options old s) (code : ErrorCode) : Inv options old (s.reject code).2 :=
  ⟨h.logger, h.accepted, h.lines⟩

lemma Inv.enqueue (h : Inv options old s) {level : LogLevel} {message : Bytes} {structured : Bool} {now : Int64}
    (hmessage : structured = true → ∀ b ∈ message, 32 ≤ b) :
    Inv options old (s.enqueue level message structured now).2 := by
  rw [State.enqueue]
  split
  · exact h.reject _
  · split
    · exact h.reject _
    · refine ⟨h.logger, ?_, fun record hrecord => ?_⟩
      · dsimp only
        rw [h.accepted, List.append_assoc]
      · rcases List.mem_append.mp hrecord with hrecord | hrecord
        · exact h.lines record hrecord
        · obtain rfl := List.mem_singleton.mp hrecord
          exact format_line _ hmessage

lemma Inv.write (h : Inv options old s) (level : Option LogLevel) (message : Bytes) (structured : Option LogRecord)
    (now : Int64) : Inv options old (s.write level message structured now).2 := by
  rw [State.write.eq_def]
  split
  · exact h.reject _
  · split
    · exact h.reject _
    · split
      · exact ⟨h.logger, h.accepted, h.lines⟩
      · split
        · exact h.enqueue fun hno => by cases hno
        · split
          · exact h.reject _
          · next hencoded =>
            apply h.enqueue
            obtain ⟨level, hvalid, rfl, -⟩ := formatLogRecord_eq_ok hencoded
            exact fun _ b hb => ((clean_encoding hvalid).2 b hb).1

lemma Inv.setLevel (h : Inv options old s) (level : Option LogLevel) : Inv options old (s.setLevel level).2 := by
  have hlogger := h.logger
  rw [State.setLevel.eq_def]
  split
  · exact h
  · split
    · exact h
    · exact ⟨⟨hlogger.file, hlogger.retainedFiles, hlogger.maxFileBytes, hlogger.disk, hlogger.size, hlogger.current⟩,
        h.accepted, h.lines⟩

lemma Inv.take (h : Inv options old s) (hretained : 1 ≤ options.retainedFiles) {record : Record} {queue : List Record}
    (hqueue : s.queue = record :: queue) : Inv options old (s.take record queue) := by
  refine ⟨?_, ?_, h.lines⟩
  · rw [State.take]
    dsimp only
    rw [List.map_append]
    exact h.logger.output hretained (format record)
  · rw [State.take]
    dsimp only
    rw [h.accepted, hqueue, List.append_assoc, List.singleton_append]

lemma Inv.step (h : Inv options old s) (hretained : 1 ≤ options.retainedFiles) {call : Call}
    (hstep : step s call = some t) : Inv options old t := by
  cases call with
  | write level message now =>
    obtain rfl := Option.some.inj hstep
    exact h.write ..
  | writeRecord record now =>
    obtain rfl := Option.some.inj hstep
    exact h.write ..
  | setLevel level =>
    obtain rfl := Option.some.inj hstep
    exact h.setLevel level
  | requestStop =>
    obtain rfl := Option.some.inj hstep
    exact ⟨h.logger, h.accepted, h.lines⟩
  | run =>
    rw [AsyncLogger.step] at hstep
    split at hstep
    · next record queue hqueue =>
      obtain rfl := Option.some.inj hstep
      exact h.take hretained hqueue
    · obtain ⟨-, rfl⟩ := of_guard hstep
      refine ⟨?_, h.accepted, h.lines⟩
      dsimp only
      split
      · exact h.logger.close
      · exact h.logger

lemma retained_of_valid (hvalid : options.valid = true) (hfile : options.file ≠ []) : 1 ≤ options.retainedFiles := by
  by_contra hzero
  have hzero' : options.retainedFiles = 0 := by omega
  have hempty : options.file.isEmpty = false := by simpa using hfile
  simp [Options.valid, hzero', hempty] at hvalid

lemma inv_start {files : Files} {faults : ℕ → Option Fault} (h : start options files faults = .ok s)
    (hfile : options.file ≠ []) : 1 ≤ options.retainedFiles ∧ Inv options (reading options.retainedFiles files) s := by
  have hempty : options.file.isEmpty = false := by simpa using hfile
  rw [start] at h
  dsimp only at h
  split at h
  · cases h
  · next hvalid =>
    rw [if_neg (by simpa using hfile)] at h
    have hfirst : DiskOk options.retainedFiles options.maxFileBytes (reading options.retainedFiles files) []
        { files := files, faults := faults } :=
      ⟨by simp [Disk.output], by simp, by simp, by simp, by simp [Disk.given], .nil, .refl _⟩
    obtain ⟨hopened, hsame, hopening⟩ :=
      @DiskOk.openActive _ _ _ _ _ (@DiskOk.same _ _ _ _ _ hfirst .absolute nofun trivial) false fun hno => by cases hno
    obtain ⟨hok, hfiles, hchunks, hopenings, hexact⟩ := hopened.fileSize
    split at h
    · cases h
    · split at h
      · cases h
      · split at h
        · cases h
        · next size d heq =>
          obtain rfl := Except.ok.inj h
          refine ⟨retained_of_valid (by simpa using hvalid) hfile, ⟨rfl, rfl, rfl, ?_, ?_, ?_⟩,
            rfl, by simp⟩
          · rw [heq] at hok
            exact hok
          · rw [heq] at hfiles hexact
            dsimp only at hfiles ⊢
            rw [hfiles, hexact size rfl]
            exact fun _ => le_rfl
          · rw [heq] at hchunks hopenings
            dsimp only at hchunks hopenings ⊢
            rw [hchunks, hopenings]
            exact fun _ _ c hc _ => hopening c hc

end Steps

section Torn

def TornAtEnd (lines : List Bytes) (content : Bytes) : Prop :=
  ∃ whole torn, content = List.flatten whole ++ torn ∧ whole.Sublist lines ∧ (torn = [] ∨ ∃ line ∈ lines, torn <+: line)

/-- A file of 128 bytes; the first write fails after three bytes, the close writes nothing more of it, and the look for
`Pending()` fails. -/
def tornOptions : Options := { console := false, file := [102], maxMessageBytes := 12, maxFileBytes := 128, retainedFiles := 1 }

def tornFaults (call : ℕ) : Option Fault := if call = 3 then some ⟨3, 0⟩ else if call = 4 ∨ call = 5 then some {} else none

def tornCalls : List Call :=
  [.write (some .info) (List.replicate 12 1) 0, .write (some .info) (List.replicate 12 1) 1,
    .write (some .info) (List.replicate 12 1) 2, .run, .run, .run]

def tornLine (now : Int64) : Bytes := format ⟨.info, List.replicate 12 1, now, false⟩

lemma torn_run : ∃ s t, start tornOptions (fun _ => none) tornFaults = .ok s ∧ run step s tornCalls = some t ∧
    t.logger.disk.files .active = some ((tornLine 0).take 3 ++ tornLine 2) ∧
    t.accepted.map format = [tornLine 0, tornLine 1, tornLine 2] := by
  have hrun : ((start tornOptions (fun _ => none) tornFaults).toOption.bind fun s => (run step s tornCalls).map fun t =>
      (t.logger.disk.files .active, t.accepted.map format)) =
      some (some ((tornLine 0).take 3 ++ tornLine 2), [tornLine 0, tornLine 1, tornLine 2]) := by decide +kernel
  obtain ⟨s, hs, hrun⟩ := Option.bind_eq_some_iff.mp hrun
  obtain ⟨t, ht, heq⟩ := Option.map_eq_some_iff.mp hrun
  obtain ⟨hactive, haccepted⟩ := Prod.mk.inj heq
  refine ⟨s, t, ?_, ht, hactive, haccepted⟩
  cases hstart : start tornOptions (fun _ => none) tornFaults with
  | error code =>
    rw [hstart] at hs
    cases hs
  | ok s' =>
    rw [hstart] at hs
    exact congrArg Except.ok (Option.some.inj hs)

def slipFaults (call : ℕ) : Option Fault := if call = 4 then some ⟨50, 0⟩ else if call = 6 then some {} else none

/-- Where the close succeeds it writes a torn line once more, here beyond the limit of the file. -/
example : ((start tornOptions (fun _ => none) slipFaults).toOption.bind fun s => (run step s tornCalls).bind fun t =>
    (t.logger.disk.files .active).map List.length) = some 162 := by decide +kernel

end Torn

end ServerCore.Observability.AsyncLogger
