import ServerCore.Core.AtomicFile
import ServerCore.Foundations.Transition

/-! Targets are replaced all or nothing. -/

namespace ServerCore.Core.AtomicFile

open ServerCore.Foundations

namespace State

def path (o : State) : ℕ × Bytes := (o.home, o.target)

def temporaryPath (o : State) : ℕ × Bytes := (o.home, o.temporary)

end State

structure Held (s : System) (o : State) (k : ℕ) : Prop where
  file : o.file = some k
  directory : o.directory = some o.home
  named : ∃ serial < s.nextTemporary, o.temporary = temporaryName s.process serial
  linked : ∀ path, s.disk.entry path = some k ↔ path = o.temporaryPath
  size : (s.disk.content k).length = o.written
  content : o.failure = .ok → s.disk.content k = o.accepted

structure Released (o : State) : Prop where
  file : o.file = none
  directory : o.directory = none
  temporary : o.temporary = []

structure Sound (s : System) (o : State) : Prop where
  place : (∃ k, Held s o k) ∨ Released o
  finished : Released o → o.committed = true ∨ o.cancelled = true ∨ o.destroyed = true
  committed : o.committed = true → Released o
  target : o.target ≠ []
  distinct : o.temporary ≠ o.target
  bounded : o.written ≤ o.options.maximumBytes
  maximum : o.options.maximumBytes ≤ 2 ^ 40

def Replaced (s : System) (o : State) : Prop :=
  s.disk.read o.path = o.previous ∨ ∃ j < s.files.count,
    (s.file j).committed = true ∧ (s.file j).path = o.path ∧ s.disk.read o.path = some (s.file j).accepted

structure Inv (s : System) : Prop where
  wellFormed : s.disk.WellFormed
  apart : s.Apart
  unique : ∀ i < s.files.count, ∀ j < s.files.count, (s.file i).temporary ≠ [] →
    (s.file i).temporary = (s.file j).temporary → i = j
  sound : ∀ i < s.files.count, Sound s (s.file i)
  replaced : ∀ i < s.files.count, Replaced s (s.file i)

section Names

variable {process a b : ℕ}

lemma temporaryName_ne_nil : temporaryName process a ≠ [] := by simp [temporaryName, ascii]

lemma temporaryName_injective (h : temporaryName process a = temporaryName process b) : a = b := by
  have hchars : toChars 10 a = toChars 10 b := List.append_cancel_left (List.append_cancel_right h)
  have hread := foldl_toChars (by decide : 2 ≤ 10) (fun c => c.toNat - 48) fun d hd => (digitChar_decimal d hd).2
  rw [← hread a, ← hread b, hchars]

lemma map_lower_toChars (n : ℕ) : (toChars 10 n).map lower = toChars 10 n := by
  conv_rhs => rw [← List.map_id (toChars 10 n)]
  apply List.map_congr_left
  intro c hc
  obtain ⟨d, hd, rfl⟩ := mem_toChars (by decide) hc
  have hall : ∀ d < 10, lower (digitChar d) = digitChar d := by decide
  exact hall d hd

lemma map_lower_temporaryName : (temporaryName process a).map lower = temporaryName process a := by
  have h₁ : (ascii ".servercore-").map lower = ascii ".servercore-" := by decide
  have h₂ : (ascii "-").map lower = ascii "-" := by decide
  have h₃ : (ascii ".tmp").map lower = ascii ".tmp" := by decide
  simp only [temporaryName, List.map_append, map_lower_toChars, h₁, h₂, h₃]

end Names

section Calls

variable {o : State} {disk : Disk}

lemma unlinkTemporary_spec (h : o.directory = none → o.temporary = []) (outcome : Option Errno) :
    ∃ disk', (o.unlinkTemporary disk outcome).2 = ({ o with temporary := [] }, disk') ∧
      (disk' = disk ∨ ∃ d, o.directory = some d ∧ o.temporary ≠ [] ∧ disk' = disk.unlink (d, o.temporary)) := by
  have hkeep (ht : o.temporary = []) : o = { o with temporary := [] } := by rw [← ht]
  rw [State.unlinkTemporary]
  split
  · next hd => exact ⟨disk, congrArg (·, disk) (hkeep (h hd)), .inl rfl⟩
  · next d hd =>
    split
    · next ht => exact ⟨disk, congrArg (·, disk) (hkeep ht), .inl rfl⟩
    · next ht =>
      cases outcome with
      | none => exact ⟨_, rfl, .inr ⟨d, hd, ht, rfl⟩⟩
      | some e => exact ⟨_, rfl, .inl rfl⟩

lemma cleanup_spec (h : o.directory = none → o.temporary = []) (outcomes : CleanupOutcomes) :
    ∃ disk', (o.cleanup disk outcomes).2 = ({ o with temporary := [], file := none, directory := none }, disk') ∧
      (disk' = disk ∨ ∃ d, o.directory = some d ∧ o.temporary ≠ [] ∧ disk' = disk.unlink (d, o.temporary)) := by
  obtain ⟨disk', heq, hdisk⟩ := @unlinkTemporary_spec o disk h outcomes.unlink
  refine ⟨disk', ?_, hdisk⟩
  rw [State.cleanup, State.close, heq]

lemma writing_spec {data : Bytes} {attempts : List Attempt} {file : ℕ} {r : ErrorCode × State × Disk}
    (h : o.writing disk data attempts = some r) (hfile : o.file = some file) :
    ∃ n failure, n ≤ data.length ∧ r.2 = ({ o with written := o.written + n, failure := failure },
      disk.append file (data.take n)) ∧
      (r.1 = .ok ∧ failure = o.failure ∧ n = data.length ∨
        r.1 = failure ∧ (failure = .cancelled ∨ failure = .platformError)) := by
  induction attempts generalizing o disk data with
  | nil =>
    cases data with
    | nil =>
      obtain rfl := Option.some.inj h
      exact ⟨0, o.failure, le_rfl, by simp, .inl ⟨rfl, rfl, rfl⟩⟩
    | cons b data => cases h
  | cons attempt attempts ih =>
    cases data with
    | nil =>
      obtain rfl := Option.some.inj h
      exact ⟨0, o.failure, le_rfl, by simp, .inl ⟨rfl, rfl, rfl⟩⟩
    | cons b data =>
      cases attempt with
      | stopRequested =>
        obtain rfl := Option.some.inj h
        exact ⟨0, .cancelled, Nat.zero_le _, by simp, .inr ⟨rfl, .inl rfl⟩⟩
      | failed stop =>
        obtain rfl := Option.some.inj h
        refine ⟨0, _, Nat.zero_le _, by simp, .inr ⟨rfl, ?_⟩⟩
        cases stop with
        | true => exact .inl rfl
        | false => exact .inr rfl
      | wrote n =>
        rw [State.writing] at h
        split at h
        · cases h
        · next file' hfile' =>
        obtain rfl : file' = file := Option.some.inj (hfile'.symm.trans hfile)
        rw [Option.ite_none_right_eq_some] at h
        obtain ⟨⟨hpos, hn⟩, h⟩ := h
        have hle : n ≤ (b :: data).length := hn.trans (Nat.min_le_left ..)
        obtain ⟨m, failure, hm, hr, hstatus⟩ := ih h hfile
        rw [List.length_drop] at hm
        refine ⟨n + m, failure, by omega, ?_, ?_⟩
        · rw [hr, Volume.append_append, ← List.take_add, Nat.add_assoc]
        · rcases hstatus with ⟨hok, hf, hlen⟩ | hbad
          · rw [List.length_drop] at hlen
            exact .inl ⟨hok, hf, by omega⟩
          · exact .inr hbad

lemma renameat_ok {directory : Option ℕ} {a b : Bytes} {outcome : Option Errno} {disk' : Disk}
    (h : renameat disk directory a b outcome = .ok disk') :
    ∃ d, directory = some d ∧ disk' = disk.rename (d, a) (d, b) := by
  cases outcome with
  | some e => cases h
  | none =>
    cases directory with
    | none => cases h
    | some d =>
      rw [renameat] at h
      split at h
      · cases h
      · exact ⟨d, rfl, (Except.ok.inj h).symm⟩

end Calls

section Fields

variable (s : System) (i : ℕ) (o : State) (disk : Disk)

@[simp] lemma put_disk : (s.put i o disk).disk = disk := rfl

@[simp] lemma put_count : (s.put i o disk).files.count = s.files.count := rfl

@[simp] lemma put_file_self : (s.put i o disk).file i = o := Table.set_row_self ..

lemma put_file_ne {j : ℕ} (h : j ≠ i) : (s.put i o disk).file j = s.file j := Table.set_row_ne _ _ h

end Fields

section Moves

variable {s : System} {i j k : ℕ}

lemma Held.temporary_ne_nil {o : State} (h : Held s o k) : o.temporary ≠ [] := by
  obtain ⟨serial, -, heq⟩ := h.named
  rw [heq]
  exact temporaryName_ne_nil

lemma Sound.temporary {o : State} (h : Sound s o) (hnone : o.directory = none) : o.temporary = [] := by
  rcases h.place with ⟨k, hk⟩ | hr
  · rw [hk.directory] at hnone
    cases hnone
  · exact hr.temporary

lemma Inv.path_ne (h : Inv s) (hi : i < s.files.count) (hj : j < s.files.count) :
    (s.file j).path ≠ (s.file i).temporaryPath := by
  intro heq
  obtain ⟨hhome, htarget⟩ := Prod.mk.inj heq
  rcases eq_or_ne j i with rfl | hne
  · exact (h.sound j hj).distinct htarget.symm
  · exact h.apart j hj i hi hne hhome.symm htarget.symm

lemma Inv.temporaryPath_ne (h : Inv s) (hi : i < s.files.count) (hj : j < s.files.count) (hne : j ≠ i)
    (hk : Held s (s.file j) k) : (s.file j).temporaryPath ≠ (s.file i).temporaryPath := by
  intro heq
  exact hne (h.unique j hj i hi hk.temporary_ne_nil (Prod.mk.inj heq).2)

/-- One object moves on: it keeps what it is about, the others keep their temporary files, and every target is left
alone or becomes what the object accepted. -/
structure Move (s : System) (i : ℕ) (o : State) (disk : Disk) : Prop where
  path : o.path = (s.file i).path
  previous : o.previous = (s.file i).previous
  committed : (s.file i).committed = true → o.committed = true ∧ o.accepted = (s.file i).accepted
  temporary : o.temporary = (s.file i).temporary ∨ o.temporary = []
  wellFormed : disk.WellFormed
  others : ∀ j < s.files.count, j ≠ i → ∀ k, Held s (s.file j) k →
    (∀ path, disk.entry path = some k ↔ s.disk.entry path = some k) ∧ disk.content k = s.disk.content k
  reads : ∀ j < s.files.count, disk.read (s.file j).path = s.disk.read (s.file j).path ∨
    o.committed = true ∧ (s.file j).path = o.path ∧ disk.read o.path = some o.accepted

variable {o : State} {disk : Disk}

lemma Move.sound (h : Move s i o disk) (hj : j < s.files.count) (hne : j ≠ i) (hs : Sound s (s.file j)) :
    Sound (s.put i o disk) (s.file j) := by
  refine ⟨?_, hs.finished, hs.committed, hs.target, hs.distinct, hs.bounded, hs.maximum⟩
  rcases hs.place with ⟨k, hk⟩ | hr
  · obtain ⟨hentry, hcontent⟩ := h.others j hj hne k hk
    refine .inl ⟨k, hk.file, hk.directory, hk.named, fun path => (hentry path).trans (hk.linked path), ?_, ?_⟩
    · rw [put_disk, hcontent]
      exact hk.size
    · intro hok
      rw [put_disk, hcontent]
      exact hk.content hok
  · exact .inr hr

lemma Move.apart (h : Move s i o disk) (hinv : Inv s) (hi : i < s.files.count) : (s.put i o disk).Apart := by
  have hpath := Prod.mk.inj h.path
  intro a ha b hb hab hhome
  rcases eq_or_ne b i with rfl | hb'
  · rw [put_file_ne s b o disk hab] at hhome ⊢
    rw [put_file_self] at hhome ⊢
    rcases h.temporary with ht | ht
    · rw [ht]
      exact hinv.apart a ha b hi hab (hpath.1.symm.trans hhome)
    · rw [ht]
      exact (hinv.sound a ha).target.symm
  · rw [put_file_ne s i o disk hb'] at hhome ⊢
    rcases eq_or_ne a i with rfl | ha'
    · rw [put_file_self] at hhome ⊢
      rw [hpath.2]
      exact hinv.apart a hi b hb hab (hhome.trans hpath.1)
    · rw [put_file_ne s i o disk ha'] at hhome ⊢
      exact hinv.apart a ha b hb hab hhome

lemma Move.unique (h : Move s i o disk) (hinv : Inv s) (hi : i < s.files.count) :
    ∀ a < s.files.count, ∀ b < s.files.count, ((s.put i o disk).file a).temporary ≠ [] →
      ((s.put i o disk).file a).temporary = ((s.put i o disk).file b).temporary → a = b := by
  have hold (a : ℕ) (hne : ((s.put i o disk).file a).temporary ≠ []) :
      ((s.put i o disk).file a).temporary = (s.file a).temporary := by
    rcases eq_or_ne a i with rfl | ha
    · rw [put_file_self] at hne ⊢
      exact h.temporary.resolve_right hne
    · rw [put_file_ne s i o disk ha]
  intro a ha b hb hne heq
  have hne' : ((s.put i o disk).file b).temporary ≠ [] := heq ▸ hne
  rw [hold a hne, hold b hne'] at heq
  rw [hold a hne] at hne
  exact hinv.unique a ha b hb hne heq

lemma Move.replaced (h : Move s i o disk) (hi : i < s.files.count) (hj : j < s.files.count)
    (hr : Replaced s (s.file j)) : Replaced (s.put i o disk) (s.file j) := by
  rw [Replaced, put_disk, put_count]
  rcases h.reads j hj with hread | ⟨hc, hpath, hread⟩
  · rw [hread]
    rcases hr with hr | ⟨m, hm, hc, hpath, hr⟩
    · exact .inl hr
    · refine .inr ⟨m, hm, ?_⟩
      rcases eq_or_ne m i with rfl | hne
      · obtain ⟨hc', haccepted⟩ := h.committed hc
        rw [put_file_self, h.path, haccepted]
        exact ⟨hc', hpath, hr⟩
      · rw [put_file_ne s i o disk hne]
        exact ⟨hc, hpath, hr⟩
  · refine .inr ⟨i, hi, ?_⟩
    rw [put_file_self, hpath]
    exact ⟨hc, rfl, hread⟩

lemma Move.inv (h : Move s i o disk) (hinv : Inv s) (hi : i < s.files.count) (hs : Sound (s.put i o disk) o) :
    Inv (s.put i o disk) := by
  refine ⟨h.wellFormed, h.apart hinv hi, h.unique hinv hi, fun j hj => ?_, fun j hj => ?_⟩
  · rcases eq_or_ne j i with rfl | hne
    · rwa [put_file_self]
    · rw [put_file_ne s i o disk hne]
      exact h.sound hj hne (hinv.sound j hj)
  · have hr := h.replaced hi hj (hinv.replaced j hj)
    rcases eq_or_ne j i with rfl | hne
    · rw [put_file_self]
      rwa [Replaced, ← h.path, ← h.previous] at hr
    · rwa [put_file_ne s i o disk hne]

lemma Inv.others_linked (h : Inv s) (hi : i < s.files.count) (hj : j < s.files.count) (hne : j ≠ i)
    (hk : Held s (s.file j) k) :
    s.disk.entry (s.file i).temporaryPath ≠ some k ∧ s.disk.entry (s.file i).path ≠ some k := by
  rw [Ne, Ne, hk.linked, hk.linked]
  exact ⟨(h.temporaryPath_ne hi hj hne hk).symm, h.path_ne hj hi⟩

lemma Inv.move_keep (h : Inv s) {o : State} (hpath : o.path = (s.file i).path)
    (hprevious : o.previous = (s.file i).previous)
    (hcommitted : (s.file i).committed = true → o.committed = true ∧ o.accepted = (s.file i).accepted)
    (htemporary : o.temporary = (s.file i).temporary ∨ o.temporary = []) : Move s i o s.disk :=
  ⟨hpath, hprevious, hcommitted, htemporary, h.wellFormed, fun _ _ _ _ _ => ⟨fun _ => Iff.rfl, rfl⟩,
    fun _ _ => .inl rfl⟩

lemma Inv.move_append (h : Inv s) (hi : i < s.files.count) (hk : Held s (s.file i) k) (x : Bytes)
    (hm : Move s i o s.disk) : Move s i o (s.disk.append k x) := by
  have hread (j : ℕ) (hj : j < s.files.count) :
      (s.disk.append k x).read (s.file j).path = s.disk.read (s.file j).path := by
    apply Volume.read_append
    rw [Ne, hk.linked]
    exact h.path_ne hi hj
  refine ⟨hm.path, hm.previous, hm.committed, hm.temporary, h.wellFormed, ?_, fun j hj => .inl (hread j hj)⟩
  intro j hj hne m hm
  refine ⟨fun _ => Iff.rfl, Volume.append_content_ne _ ?_⟩
  rintro rfl
  exact (h.others_linked hi hj hne hm).1 ((hk.linked _).mpr rfl)

lemma Inv.move_unlink (h : Inv s) (hi : i < s.files.count) (hm : Move s i o s.disk) :
    Move s i o (s.disk.unlink (s.file i).temporaryPath) := by
  refine ⟨hm.path, hm.previous, hm.committed, hm.temporary, h.wellFormed.unlink _, ?_,
    fun j hj => .inl (Volume.read_unlink (h.path_ne hi hj))⟩
  intro j hj hne m hm
  refine ⟨fun path => ?_, rfl⟩
  rcases eq_or_ne path (s.file i).temporaryPath with rfl | hpath
  · rw [Volume.unlink_entry_self]
    exact iff_of_false (by simp) (h.others_linked hi hj hne hm).1
  · rw [Volume.unlink_entry_ne _ hpath]

lemma Inv.move_rename (h : Inv s) (hi : i < s.files.count) (hk : Held s (s.file i) k) (hm : Move s i o s.disk)
    (hcommitted : o.committed = true) (haccepted : s.disk.content k = o.accepted) :
    Move s i o (s.disk.rename (s.file i).temporaryPath (s.file i).path) := by
  have hsource : s.disk.entry (s.file i).temporaryPath = some k := (hk.linked _).mpr rfl
  have htarget : s.disk.entry (s.file i).path ≠ some k := by
    rw [Ne, hk.linked]
    exact h.path_ne hi hi
  refine ⟨hm.path, hm.previous, hm.committed, hm.temporary, h.wellFormed.rename _ _, ?_, fun j hj => ?_⟩
  · intro j hj hne m hm
    obtain ⟨hm₁, hm₂⟩ := h.others_linked hi hj hne hm
    refine ⟨fun path => ?_, by rw [Volume.rename_content]⟩
    rcases eq_or_ne path (s.file i).path with rfl | hp
    · rw [Volume.rename_entry_target]
      exact iff_of_false hm₁ hm₂
    · rcases eq_or_ne path (s.file i).temporaryPath with rfl | hp'
      · rw [Volume.rename_entry_source _ (by rw [hsource]; exact htarget.symm)]
        exact iff_of_false (by simp) hm₁
      · rw [Volume.rename_entry_ne _ hp' hp]
  · rcases eq_or_ne (s.file j).path (s.file i).path with hp | hp
    · refine .inr ⟨hcommitted, hp.trans hm.path.symm, ?_⟩
      rw [hm.path, Volume.read_rename_target, Volume.read, hsource, Option.map_some, haccepted]
    · exact .inl (Volume.read_rename_ne (h.path_ne hi hj) hp)

end Moves

section Operations

variable {s : System} {i : ℕ}

lemma write_spec {data : Bytes} {attempts : List Attempt} {r : ErrorCode × System}
    (h : s.write i data attempts = some r) (hinv : Inv s) (hi : i < s.files.count)
    (halive : (s.file i).destroyed = false) :
    (r.2 = s ∧ r.1 ≠ .ok ∧ ((s.file i).failure = .ok → r.1 = .closed ∨ r.1 = .tooLarge)) ∨
    ∃ k n failure, Held s (s.file i) k ∧ (s.file i).committed = false ∧ (s.file i).cancelled = false ∧
      (s.file i).failure = .ok ∧ n ≤ data.length ∧ (s.file i).written + data.length ≤ (s.file i).options.maximumBytes ∧
      r.2 = s.put i { s.file i with
        written := (s.file i).written + n, failure := failure,
        accepted := if r.1 = .ok then (s.file i).accepted ++ data else (s.file i).accepted }
        (s.disk.append k (data.take n)) ∧
      (r.1 = .ok ∧ failure = .ok ∧ n = data.length ∨
        r.1 = failure ∧ (failure = .cancelled ∨ failure = .platformError)) := by
  have hs := hinv.sound i hi
  rw [System.write] at h
  dsimp only at h
  split at h
  · next hclosed =>
    obtain rfl := Option.some.inj h
    exact .inl ⟨rfl, by simp, fun _ => .inl rfl⟩
  · next hopen =>
    obtain ⟨hcommitted, hcancelled⟩ : (s.file i).committed = false ∧ (s.file i).cancelled = false := by
      simpa [not_or] using hopen
    split at h
    · next hfailure =>
      obtain rfl := Option.some.inj h
      exact .inl ⟨rfl, hfailure, fun hok => absurd hok hfailure⟩
    · next hfailure =>
      rw [not_not] at hfailure
      split at h
      · obtain rfl := Option.some.inj h
        exact .inl ⟨rfl, by simp, fun _ => .inr rfl⟩
      · next hfits =>
        have hb := hs.bounded
        rw [sizeSub_eq hb] at hfits
        rcases hs.place with ⟨k, hk⟩ | hreleased
        · obtain ⟨⟨status, o, disk⟩, hw, rfl⟩ := Option.map_eq_some_iff.mp h
          obtain ⟨n, failure, hn, hr, hstatus⟩ := writing_spec hw hk.file
          obtain ⟨rfl, rfl⟩ := Prod.mk.inj hr
          rw [hfailure] at hstatus
          exact .inr ⟨k, n, failure, hk, hcommitted, hcancelled, hfailure, hn, by omega, rfl, hstatus⟩
        · have := hs.finished hreleased
          simp [hcommitted, hcancelled, halive] at this

lemma commit_spec (s : System) (i : ℕ) (outcomes : CommitOutcomes) :
    (s.commit i outcomes).1 ≠ .ok ∧ (s.commit i outcomes).2 = s ∨
    (∃ code ≠ .ok, (s.file i).failure = .ok ∧
      s.commit i outcomes = (code, s.put i { s.file i with failure := code } s.disk)) ∨
    ((s.file i).committed = false ∧ (s.file i).cancelled = false ∧ (s.file i).failure = .ok ∧
      ∃ d, (s.file i).directory = some d ∧ (s.commit i outcomes).2 =
        s.put i { s.file i with committed := true, temporary := [], file := none, directory := none }
          (s.disk.rename (d, (s.file i).temporary) (d, (s.file i).target))) := by
  have hcode (e : Errno) : osError e ≠ .ok := by cases e <;> simp [osError]
  rw [System.commit]
  dsimp only
  split
  · exact .inl ⟨by simp, rfl⟩
  · next hopen =>
    split
    · next hfailure => exact .inl ⟨hfailure, rfl⟩
    · next hfailure =>
      split
      · next e he => exact .inr (.inl ⟨_, hcode e, by simpa using hfailure, rfl⟩)
      · split
        · next e he => exact .inl ⟨hcode e, rfl⟩
        · next disk hdisk =>
          obtain ⟨d, hd, rfl⟩ := renameat_ok hdisk
          refine .inr (.inr ⟨?_, ?_, by simpa using hfailure, d, hd, ?_⟩)
          · simpa using (not_or.mp hopen).1
          · simpa using (not_or.mp hopen).2
          · obtain ⟨disk', heq, hdisk' | ⟨d', -, ht, -⟩⟩ :=
              @cleanup_spec { s.file i with committed := true, temporary := [] }
                (s.disk.rename (d, (s.file i).temporary) (d, (s.file i).target)) (fun _ => rfl) outcomes.cleanup
            · rw [heq, hdisk']
            · exact absurd rfl ht

variable {r : ErrorCode × System} {data : Bytes} {attempts : List Attempt}

lemma Inv.write (hinv : Inv s) (ha : s.Alive i) (h : s.write i data attempts = some r) : Inv r.2 := by
  obtain ⟨hi, halive⟩ := ha
  rcases write_spec h hinv hi halive with
    ⟨hsame, -, -⟩ | ⟨k, n, failure, hk, hcommitted, hcancelled, hfailure, hn, hfits, hr, hstatus⟩
  · rwa [hsame]
  · have hs := hinv.sound i hi
    rw [hr]
    refine Move.inv ?_ hinv hi ?_
    · have hopen : (s.file i).committed ≠ true := by simp [hcommitted]
      exact hinv.move_append hi hk _ (hinv.move_keep rfl rfl (fun hc => absurd hc hopen) (.inl rfl))
    · refine ⟨.inl ⟨k, hk.file, hk.directory, hk.named, hk.linked, ?_, fun hok => ?_⟩, ?_, ?_, hs.target, hs.distinct,
        ?_, hs.maximum⟩
      · rw [put_disk, Volume.append_content_self, List.length_append, hk.size, List.length_take]
        dsimp only
        omega
      · rcases hstatus with ⟨hok', -, rfl⟩ | ⟨-, hbad⟩
        · rw [put_disk, Volume.append_content_self, hk.content hfailure, List.take_length]
          exact (if_pos hok').symm
        · dsimp only at hok
          rw [hok] at hbad
          rcases hbad with hbad | hbad <;> cases hbad
      · intro hreleased
        have hnone : some k = none := hk.file.symm.trans hreleased.file
        cases hnone
      · intro hc
        exact absurd (hcommitted.symm.trans hc) (by simp)
      · dsimp only
        omega

lemma Inv.cleaned (hinv : Inv s) (hi : i < s.files.count) (outcomes : CleanupOutcomes) {cancelled destroyed : Bool}
    (hfinished : cancelled = true ∨ destroyed = true) :
    ∃ disk, ({ s.file i with cancelled := cancelled }.cleanup s.disk outcomes).2 =
        ({ s.file i with cancelled := cancelled, temporary := [], file := none, directory := none }, disk) ∧
      Inv (s.put i { s.file i with
        cancelled := cancelled, destroyed := destroyed, temporary := [], file := none, directory := none } disk) := by
  have hs := hinv.sound i hi
  obtain ⟨disk, heq, hdisk⟩ := @cleanup_spec { s.file i with cancelled := cancelled } s.disk hs.temporary outcomes
  refine ⟨disk, heq, Move.inv ?_ hinv hi ⟨.inr ⟨rfl, rfl, rfl⟩, fun _ => .inr hfinished, fun _ => ⟨rfl, rfl, rfl⟩,
    hs.target, hs.target.symm, hs.bounded, hs.maximum⟩⟩
  rcases hdisk with rfl | ⟨d, hd, hne, rfl⟩
  · exact hinv.move_keep rfl rfl (fun hc => ⟨hc, rfl⟩) (.inr rfl)
  · have hplace : (d, (s.file i).temporary) = (s.file i).temporaryPath := by
      rcases hs.place with ⟨k, hk⟩ | hreleased
      · rw [State.temporaryPath, Option.some.inj (hd.symm.trans hk.directory)]
      · exact absurd hreleased.temporary hne
    dsimp only
    rw [hplace]
    exact hinv.move_unlink hi (hinv.move_keep rfl rfl (fun hc => ⟨hc, rfl⟩) (.inr rfl))

lemma Inv.cancel (hinv : Inv s) (hi : i < s.files.count) (outcomes : CleanupOutcomes) :
    ∃ disk, (s.cancel i outcomes).2 =
      s.put i { s.file i with cancelled := true, temporary := [], file := none, directory := none } disk ∧
      Inv (s.cancel i outcomes).2 := by
  obtain ⟨disk, heq, hinv'⟩ := @Inv.cleaned s i hinv hi outcomes true (s.file i).destroyed (.inl rfl)
  rw [System.cancel, heq]
  exact ⟨disk, rfl, hinv'⟩

lemma Inv.destroy (hinv : Inv s) (hi : i < s.files.count) (outcomes : CleanupOutcomes) :
    ∃ disk, s.destroy i outcomes =
      s.put i { s.file i with destroyed := true, temporary := [], file := none, directory := none } disk ∧
      Inv (s.destroy i outcomes) := by
  obtain ⟨disk, heq, hinv'⟩ := @Inv.cleaned s i hinv hi outcomes (s.file i).cancelled true (.inr rfl)
  have heq' : ((s.file i).cleanup s.disk outcomes).2 =
    ({ s.file i with temporary := [], file := none, directory := none }, disk) := heq
  rw [System.destroy, heq']
  exact ⟨disk, rfl, hinv'⟩

lemma Inv.commit (hinv : Inv s) (ha : s.Alive i) (outcomes : CommitOutcomes) : Inv (s.commit i outcomes).2 := by
  obtain ⟨hi, halive⟩ := ha
  have hs := hinv.sound i hi
  rcases commit_spec s i outcomes with
    ⟨-, hsame⟩ | ⟨code, hcode, -, heq⟩ | ⟨hcommitted, hcancelled, hfailure, d, hd, heq⟩
  · rwa [hsame]
  · rw [heq]
    refine Move.inv (hinv.move_keep rfl rfl (fun hc => ⟨hc, rfl⟩) (.inl rfl)) hinv hi
      ⟨?_, ?_, ?_, hs.target, hs.distinct, hs.bounded, hs.maximum⟩
    · rcases hs.place with ⟨k, hk⟩ | hreleased
      · exact .inl ⟨k, hk.file, hk.directory, hk.named, hk.linked, hk.size, fun hok => absurd hok hcode⟩
      · exact .inr ⟨hreleased.file, hreleased.directory, hreleased.temporary⟩
    · intro hreleased
      exact hs.finished ⟨hreleased.file, hreleased.directory, hreleased.temporary⟩
    · intro hc
      obtain ⟨h₁, h₂, h₃⟩ := hs.committed hc
      exact ⟨h₁, h₂, h₃⟩
  · rcases hs.place with ⟨k, hk⟩ | hreleased
    · obtain rfl : (s.file i).home = d := Option.some.inj (hk.directory.symm.trans hd)
      rw [heq]
      refine Move.inv (hinv.move_rename hi hk ?_ rfl (hk.content hfailure)) hinv hi ?_
      · exact hinv.move_keep rfl rfl (fun _ => ⟨rfl, rfl⟩) (.inr rfl)
      · exact ⟨.inr ⟨rfl, rfl, rfl⟩, fun _ => .inl rfl, fun _ => ⟨rfl, rfl, rfl⟩, hs.target, hs.target.symm, hs.bounded,
          hs.maximum⟩
    · rw [hreleased.directory] at hd
      cases hd

end Operations

section Creation

variable {s : System} {leaf : Bytes} {d : ℕ}

def Opens (s : System) (leaf : Bytes) (d : ℕ) (r : Except ErrorCode Bytes × System) : Prop :=
  ∃ serial, s.nextTemporary ≤ serial ∧
    ((∃ code ≠ .ok, r = (.error code, { s with nextTemporary := serial })) ∨
      ∃ used, s.nextTemporary ≤ used ∧ used < serial ∧ leaf ≠ temporaryName s.process used ∧
        s.disk.entry (d, temporaryName s.process used) = none ∧
        r = (.ok (temporaryName s.process used),
          { s with nextTemporary := serial, disk := s.disk.create (d, temporaryName s.process used) }))

lemma Opens.later {r : Except ErrorCode Bytes × System}
    (h : Opens { s with nextTemporary := s.nextTemporary + 1 } leaf d r) : Opens s leaf d r := by
  obtain ⟨serial, hle, herror | ⟨used, hused, hlt, hok⟩⟩ := h
  · exact ⟨serial, Nat.le_of_succ_le hle, .inl herror⟩
  · exact ⟨serial, Nat.le_of_succ_le hle, .inr ⟨used, Nat.le_of_succ_le hused, hlt, hok⟩⟩

lemma openTemporary_spec (opens : ℕ → Option Errno) (attempts : ℕ) :
    Opens s leaf d (s.openTemporary leaf d opens attempts) := by
  induction attempts generalizing s with
  | zero => exact ⟨s.nextTemporary, le_rfl, .inl ⟨.alreadyExists, by simp, rfl⟩⟩
  | succ attempts ih =>
    rw [System.openTemporary]
    split
    · exact ⟨s.nextTemporary, le_rfl, .inl ⟨.platformError, by simp, rfl⟩⟩
    · dsimp only
      split
      · exact ih.later
      · next hleaf =>
        split
        · next e he =>
          refine ⟨s.nextTemporary + 1, Nat.le_succ _, .inl ⟨osError e, ?_, rfl⟩⟩
          cases e <;> simp [osError]
        · next he =>
          split
          · exact ih.later
          · next hentry =>
            refine ⟨s.nextTemporary + 1, Nat.le_succ _, .inr ⟨s.nextTemporary, le_rfl, Nat.lt_succ_self _, ?_, ?_, rfl⟩⟩
            · rintro rfl
              exact hleaf map_lower_temporaryName
            · simpa using hentry

lemma create_spec (s : System) (utf8Target : Bytes) (options : Options) (absolute : Option Bytes)
    (directory : Except Errno ℕ) (opens : ℕ → Option Errno) :
    ∃ serial, s.nextTemporary ≤ serial ∧
      ((∃ code ≠ .ok, s.create utf8Target options absolute directory opens =
          (code, { s with nextTemporary := serial })) ∨
        ∃ leaf d used, s.nextTemporary ≤ used ∧ used < serial ∧ leaf ≠ [] ∧ leaf ≠ temporaryName s.process used ∧
          s.disk.entry (d, temporaryName s.process used) = none ∧ options.maximumBytes ≤ 2 ^ 40 ∧
          s.create utf8Target options absolute directory opens = (.ok,
            ⟨s.disk.create (d, temporaryName s.process used), s.process, serial, s.files.push
              { options := options, file := some s.disk.files, directory := some d,
                temporary := temporaryName s.process used, target := leaf, home := d,
                previous := (s.disk.create (d, temporaryName s.process used)).read (d, leaf) }⟩)) := by
  have hfail (code : ErrorCode) (h : code ≠ .ok)
      (heq : s.create utf8Target options absolute directory opens = (code, s)) :
      ∃ code ≠ .ok, s.create utf8Target options absolute directory opens =
        (code, { s with nextTemporary := s.nextTemporary }) := ⟨code, h, heq⟩
  by_cases hvalid : utf8Target = [] ∨ 32768 < utf8Target.length ∨ 0 ∈ utf8Target ∨ isValidUtf8 utf8Target = false ∨
      options.maximumBytes = 0 ∨ 2 ^ 40 < options.maximumBytes
  · exact ⟨_, le_rfl, .inl (hfail .invalidArgument (by simp) (if_pos hvalid))⟩
  · have hcreate : s.create utf8Target options absolute directory opens = _ := if_neg hvalid
    cases absolute with
    | none => exact ⟨_, le_rfl, .inl (hfail .platformError (by simp) hcreate)⟩
    | some leaf =>
      by_cases hleaf : leaf = [] ∨ leaf = ascii "." ∨ leaf = ascii ".."
      · exact ⟨_, le_rfl, .inl (hfail .invalidArgument (by simp) (hcreate.trans (if_pos hleaf)))⟩
      · have hcreate := hcreate.trans (if_neg hleaf)
        cases directory with
        | error e =>
          refine ⟨_, le_rfl, .inl (hfail (osError e) ?_ hcreate)⟩
          cases e <;> simp [osError]
        | ok d =>
          obtain ⟨serial, hle, ⟨code, hcode, heq⟩ | ⟨used, hused, hlt, hne, hnone, heq⟩⟩ :=
            @openTemporary_spec s leaf d opens 64
          · refine ⟨serial, hle, .inl ⟨code, hcode, hcreate.trans ?_⟩⟩
            dsimp only
            rw [heq]
          · refine ⟨serial, hle, .inr ⟨leaf, d, used, hused, hlt, fun h => hleaf (.inl h), hne, hnone, by omega,
              hcreate.trans ?_⟩⟩
            dsimp only
            rw [heq]
            dsimp only
            rw [Volume.create_entry_self]

lemma Sound.of_held {s' : System} {o : State} (h : Sound s o) (hheld : ∀ k, Held s o k → Held s' o k) :
    Sound s' o := by
  refine ⟨?_, h.finished, h.committed, h.target, h.distinct, h.bounded, h.maximum⟩
  rcases h.place with ⟨k, hk⟩ | hr
  · exact .inl ⟨k, hheld k hk⟩
  · exact .inr hr

lemma Inv.later (h : Inv s) {serial : ℕ} (hle : s.nextTemporary ≤ serial) :
    Inv { s with nextTemporary := serial } := by
  refine ⟨h.wellFormed, h.apart, h.unique, fun i hi => (h.sound i hi).of_held fun k hk => ?_, h.replaced⟩
  obtain ⟨used, hlt, hname⟩ := hk.named
  exact ⟨hk.file, hk.directory, ⟨used, hlt.trans_le hle, hname⟩, hk.linked, hk.size, hk.content⟩

lemma Inv.temporary_ne (h : Inv s) {i used : ℕ} (hi : i < s.files.count) (hused : s.nextTemporary ≤ used) :
    (s.file i).temporary ≠ temporaryName s.process used := by
  rcases (h.sound i hi).place with ⟨k, hk⟩ | hr
  · obtain ⟨serial, hlt, hname⟩ := hk.named
    rw [hname]
    intro heq
    have := temporaryName_injective heq
    omega
  · rw [hr.temporary]
    exact temporaryName_ne_nil.symm

section Add

variable {used serial i k : ℕ} {o : State}

def System.add (s : System) (used serial : ℕ) (o : State) : System :=
  ⟨s.disk.create (o.home, temporaryName s.process used), s.process, serial, s.files.push o⟩

lemma add_file_old (hi : i < s.files.count) : (s.add used serial o).file i = s.file i :=
  (Table.push_row ..).trans (if_neg hi.ne)

@[simp] lemma add_file_new : (s.add used serial o).file s.files.count = o := (Table.push_row ..).trans (if_pos rfl)

lemma Inv.held_add (h : Inv s) (hi : i < s.files.count) (hused : s.nextTemporary ≤ used) (hlt : used < serial)
    (hk : Held s (s.file i) k) : Held (s.add used serial o) (s.file i) k := by
  have hk' : k < s.disk.files := h.wellFormed _ k ((hk.linked _).mpr rfl)
  have hcontent : (s.add used serial o).disk.content k = s.disk.content k := Volume.create_content_ne _ hk'.ne
  obtain ⟨used', hlt', hname⟩ := hk.named
  refine ⟨hk.file, hk.directory, ⟨used', hlt'.trans (Nat.lt_of_le_of_lt hused hlt), hname⟩, fun path => ?_, ?_,
    fun hok => ?_⟩
  · by_cases hpath : path = (o.home, temporaryName s.process used)
    · refine iff_of_false ?_ ?_
      · rw [hpath]
        intro hentry
        exact hk'.ne' (Option.some.inj ((Volume.create_entry_self ..).symm.trans hentry))
      · intro heq
        exact h.temporary_ne hi hused (Prod.mk.inj (heq.symm.trans hpath)).2
    · have hentry : (s.add used serial o).disk.entry path = s.disk.entry path := Volume.create_entry_ne _ hpath
      rw [hentry]
      exact hk.linked path
  · rw [hcontent]
    exact hk.size
  · rw [hcontent]
    exact hk.content hok

lemma Inv.sound_add (h : Inv s) (hlt : used < serial) (hfile : o.file = some s.disk.files)
    (hdirectory : o.directory = some o.home) (htemporary : o.temporary = temporaryName s.process used)
    (hnew : o.written = 0 ∧ o.committed = false ∧ o.accepted = []) (hnil : o.target ≠ [])
    (hne : o.target ≠ o.temporary) (hmax : o.options.maximumBytes ≤ 2 ^ 40) : Sound (s.add used serial o) o := by
  obtain ⟨hwritten, hcommitted, haccepted⟩ := hnew
  have hcontent : (s.add used serial o).disk.content s.disk.files = [] := Volume.create_content_self ..
  have hpath : o.temporaryPath = (o.home, temporaryName s.process used) := by rw [State.temporaryPath, htemporary]
  refine ⟨.inl ⟨_, hfile, hdirectory, ⟨used, hlt, htemporary⟩, fun path => ?_, ?_, fun _ => ?_⟩, ?_, ?_, hnil, hne.symm,
    by omega, hmax⟩
  · rw [hpath]
    by_cases hp : path = (o.home, temporaryName s.process used)
    · exact iff_of_true (hp ▸ Volume.create_entry_self ..) hp
    · have hentry : (s.add used serial o).disk.entry path = s.disk.entry path := Volume.create_entry_ne _ hp
      rw [hentry]
      refine iff_of_false (fun hold => ?_) hp
      exact absurd (h.wellFormed _ _ hold) (lt_irrefl _)
  · rw [hcontent, hwritten]
    rfl
  · rw [hcontent, haccepted]
  · intro hr
    have hcontra := hfile.symm.trans hr.file
    cases hcontra
  · intro hc
    exact absurd (hcommitted.symm.trans hc) (by simp)

lemma Inv.replaced_add (h : Inv s) (hi : i < s.files.count) (htemporary : o.temporary = temporaryName s.process used)
    (hapart : (s.add used serial o).Apart) : Replaced (s.add used serial o) (s.file i) := by
  have hne : (s.file i).path ≠ (o.home, temporaryName s.process used) := by
    intro heq
    obtain ⟨hhome, htarget⟩ := Prod.mk.inj heq
    have hapart' := hapart i (Nat.lt_succ_of_lt hi) s.files.count (Nat.lt_succ_self _) hi.ne
    rw [add_file_new, add_file_old hi] at hapart'
    exact hapart' hhome.symm (htemporary.trans htarget.symm)
  have hread : (s.add used serial o).disk.read (s.file i).path = s.disk.read (s.file i).path :=
    Volume.read_create h.wellFormed hne
  rw [Replaced, hread]
  rcases h.replaced i hi with hr | ⟨j, hj, hc⟩
  · exact .inl hr
  · refine .inr ⟨j, Nat.lt_succ_of_lt hj, ?_⟩
    rwa [add_file_old hj]

lemma Inv.add (h : Inv s) (hused : s.nextTemporary ≤ used) (hlt : used < serial)
    (htemporary : o.temporary = temporaryName s.process used)
    (hprevious : o.previous = (s.add used serial o).disk.read o.path) (hsound : Sound (s.add used serial o) o)
    (hapart : (s.add used serial o).Apart) : Inv (s.add used serial o) := by
  have hcases {i : ℕ} (hi : i < (s.add used serial o).files.count) : i < s.files.count ∨ i = s.files.count :=
    Nat.lt_succ_iff_lt_or_eq.mp hi
  refine ⟨h.wellFormed.create _, hapart, ?_, fun i hi => ?_, fun i hi => ?_⟩
  · intro i hi j hj hne heq
    rcases hcases hi with hi | rfl <;> rcases hcases hj with hj | rfl
    · rw [add_file_old hi] at hne heq
      rw [add_file_old hj] at heq
      exact h.unique i hi j hj hne heq
    · rw [add_file_old hi, add_file_new, htemporary] at heq
      exact absurd heq (h.temporary_ne hi hused)
    · rw [add_file_old hj, add_file_new, htemporary] at heq
      exact absurd heq.symm (h.temporary_ne hj hused)
    · rfl
  · rcases hcases hi with hi | rfl
    · rw [add_file_old hi]
      exact (h.sound i hi).of_held fun k hk => h.held_add hi hused hlt hk
    · rwa [add_file_new]
  · rcases hcases hi with hi | rfl
    · rw [add_file_old hi]
      exact h.replaced_add hi htemporary hapart
    · rw [add_file_new]
      exact .inl hprevious.symm

end Add

lemma Inv.step {t : System} {call : Call} (h : Inv s) (hstep : step s call = some t) : Inv t := by
  cases call with
  | create utf8Target options absolute directory opens =>
    obtain ⟨hapart, rfl⟩ := of_guard hstep
    obtain ⟨serial, hle, ⟨code, -, heq⟩ | ⟨leaf, d, used, hused, hlt, hnil, hne, hnone, hmax, heq⟩⟩ :=
      create_spec s utf8Target options absolute directory opens
    · rw [heq]
      exact h.later hle
    · rw [heq] at hapart ⊢
      refine h.add hused hlt rfl rfl ?_ hapart
      exact h.sound_add hlt rfl rfl rfl ⟨rfl, rfl, rfl⟩ hnil hne hmax
  | write i data attempts =>
    obtain ⟨halive, ht⟩ := Option.ite_none_right_eq_some.mp hstep
    obtain ⟨r, hr, rfl⟩ := Option.map_eq_some_iff.mp ht
    exact h.write halive hr
  | commit i outcomes =>
    obtain ⟨halive, rfl⟩ := of_guard hstep
    exact h.commit halive outcomes
  | cancel i outcomes =>
    obtain ⟨halive, rfl⟩ := of_guard hstep
    obtain ⟨-, -, hinv⟩ := h.cancel halive.1 outcomes
    exact hinv
  | destroy i outcomes =>
    obtain ⟨halive, rfl⟩ := of_guard hstep
    obtain ⟨-, -, hinv⟩ := h.destroy halive.1 outcomes
    exact hinv

lemma inv_of_reachable (h : Reachable step Initial s) : Inv s := by
  refine h.invariant (fun s hs => ?_) (fun _ _ _ hinv hstep => hinv.step hstep)
  obtain ⟨hdisk, -, hcount⟩ := hs
  have hnone {i : ℕ} (hi : i < s.files.count) : False := by omega
  exact ⟨hdisk, fun i hi => (hnone hi).elim, fun i hi => (hnone hi).elim, fun i hi => (hnone hi).elim,
    fun i hi => (hnone hi).elim⟩

end Creation

section History

variable {s t : System} {call : Call} {i j : ℕ}

structure Later (o o' : State) : Prop where
  path : o'.path = o.path
  previous : o'.previous = o.previous
  failure : o.failure ≠ .ok → o'.failure = o.failure

lemma Later.refl (o : State) : Later o o := ⟨rfl, rfl, fun _ => rfl⟩

def Recorded (s t : System) (call : Call) (j : ℕ) : Prop :=
  j < t.files.count ∧ Later (s.file j) (t.file j) ∧
    ((t.file j).accepted = (s.file j).accepted ∨ ∃ data attempts, call = .write j data attempts ∧
      s.write j data attempts = some (.ok, t) ∧ (t.file j).accepted = (s.file j).accepted ++ data)

lemma recorded_self (hj : j < s.files.count) : Recorded s s call j := ⟨hj, .refl _, .inl rfl⟩

lemma recorded_put {o : State} {disk : Disk} (hj : j < s.files.count) (ho : Later (s.file i) o)
    (haccepted : o.accepted = (s.file i).accepted) : Recorded s (s.put i o disk) call j := by
  refine ⟨hj, ?_⟩
  rcases eq_or_ne j i with rfl | hne
  · rw [put_file_self]
    exact ⟨ho, .inl haccepted⟩
  · rw [put_file_ne s i o disk hne]
    exact ⟨.refl _, .inl rfl⟩

lemma step_recorded (h : Inv s) (hstep : step s call = some t) (hj : j < s.files.count) : Recorded s t call j := by
  cases call with
  | create utf8Target options absolute directory opens =>
    obtain ⟨-, rfl⟩ := of_guard hstep
    obtain ⟨serial, -, ⟨code, -, heq⟩ | ⟨leaf, d, used, -, -, -, -, -, -, heq⟩⟩ :=
      create_spec s utf8Target options absolute directory opens
    · rw [heq]
      exact ⟨hj, .refl _, .inl rfl⟩
    · rw [heq]
      have hfile (o : State) : (s.files.push o).row j = s.files.row j := (Table.push_row ..).trans (if_neg hj.ne)
      refine ⟨Nat.lt_succ_of_lt hj, ?_⟩
      rw [System.file, System.file, hfile]
      exact ⟨.refl _, .inl rfl⟩
  | write i data attempts =>
    obtain ⟨⟨hi, halive⟩, ht⟩ := Option.ite_none_right_eq_some.mp hstep
    obtain ⟨⟨status, t⟩, hr, rfl⟩ := Option.map_eq_some_iff.mp ht
    rcases write_spec hr h hi halive with
      ⟨hsame, -, -⟩ | ⟨k, n, failure, -, -, -, hfailure, -, -, heq, hstatus⟩
    · obtain rfl : t = s := hsame
      exact recorded_self hj
    · dsimp only at heq
      have hfile : t.file j = _ := congrArg (System.file · j) heq
      refine ⟨by rw [heq]; exact hj, ?_⟩
      rcases eq_or_ne j i with rfl | hne
      · rw [put_file_self] at hfile
        rw [hfile]
        refine ⟨⟨rfl, rfl, fun hbad => absurd hfailure hbad⟩, ?_⟩
        rcases eq_or_ne status .ok with rfl | hbad
        · exact .inr ⟨data, attempts, rfl, hr, by simp⟩
        · exact .inl (by simp [hbad])
      · rw [put_file_ne _ _ _ _ hne] at hfile
        rw [hfile]
        exact ⟨.refl _, .inl rfl⟩
  | commit i outcomes =>
    obtain ⟨-, rfl⟩ := of_guard hstep
    rcases commit_spec s i outcomes with ⟨-, hsame⟩ | ⟨code, -, hfailure, heq⟩ | ⟨-, -, -, d, -, heq⟩
    · rw [hsame]
      exact recorded_self hj
    · rw [heq]
      exact recorded_put hj ⟨rfl, rfl, fun hbad => absurd hfailure hbad⟩ rfl
    · rw [heq]
      exact recorded_put hj ⟨rfl, rfl, fun _ => rfl⟩ rfl
  | cancel i outcomes =>
    obtain ⟨⟨hi, -⟩, rfl⟩ := of_guard hstep
    obtain ⟨disk, heq, -⟩ := h.cancel hi outcomes
    rw [heq]
    exact recorded_put hj ⟨rfl, rfl, fun _ => rfl⟩ rfl
  | destroy i outcomes =>
    obtain ⟨⟨hi, -⟩, rfl⟩ := of_guard hstep
    obtain ⟨disk, heq, -⟩ := h.destroy hi outcomes
    rw [heq]
    exact recorded_put hj ⟨rfl, rfl, fun _ => rfl⟩ rfl

lemma write_of_failure (h : (s.file i).failure ≠ .ok) {data : Bytes} {attempts : List Attempt}
    {r : ErrorCode × System} (hr : s.write i data attempts = some r) : r.1 ≠ .ok ∧ r.2 = s := by
  rw [System.write] at hr
  dsimp only at hr
  split at hr
  · obtain rfl := Option.some.inj hr
    exact ⟨by simp, rfl⟩
  · obtain rfl := Option.some.inj hr
    exact ⟨h, rfl⟩

lemma commit_of_failure (h : (s.file i).failure ≠ .ok) (outcomes : CommitOutcomes) :
    (s.commit i outcomes).1 ≠ .ok ∧ (s.commit i outcomes).2 = s := by
  rw [System.commit]
  dsimp only
  split
  · exact ⟨by simp, rfl⟩
  · exact ⟨h, rfl⟩

lemma failure_stays (h : Inv s) (hsteps : Steps step s t) (hi : i < s.files.count) (hfailure : (s.file i).failure ≠ .ok) :
    (t.file i).failure ≠ .ok := by
  have hkept : Inv t ∧ i < t.files.count ∧ (t.file i).failure = (s.file i).failure := by
    refine @Steps.invariant _ _ _ (fun t => Inv t ∧ i < t.files.count ∧ (t.file i).failure = (s.file i).failure) _ _
      hsteps ⟨h, hi, rfl⟩ fun u call v ⟨hinv, hu, heq⟩ hstep => ?_
    obtain ⟨hv, hlater, -⟩ := step_recorded hinv hstep hu
    exact ⟨hinv.step hstep, hv, (hlater.failure (heq ▸ hfailure)).trans heq⟩
  rw [hkept.2.2]
  exact hfailure

/-- Targets are replaced all or nothing. A `Commit` that returns `Ok` has replaced the target by what the object
accepted, which grows by its writes that returned `Ok` and no other way. A write refused as too large changes
nothing; another failed write or a failed sync leaves a failure behind, and from then on every write and commit of
the object fails and changes nothing. No more than `maximumBytes` are written, and no temporary name is the target of
its object or the name of two of them. -/
theorem targets_replaced_all_or_nothing (h : Reachable step Initial s) :
    (∀ i < s.files.count, Replaced s (s.file i)) ∧
    (∀ i outcomes, s.Alive i → (s.commit i outcomes).1 = .ok →
      ((s.commit i outcomes).2.file i).committed = true ∧
      (s.commit i outcomes).2.disk.read (s.file i).path = some (s.file i).accepted) ∧
    (∀ call t i, step s call = some t → i < s.files.count → Recorded s t call i) ∧
    (∀ i data attempts status t, s.Alive i → s.write i data attempts = some (status, t) →
      (status = .tooLarge → t = s) ∧
      (status ≠ .ok → status ≠ .closed → status ≠ .tooLarge → (t.file i).failure ≠ .ok)) ∧
    (∀ i outcomes e, s.Alive i → (s.file i).committed = false → (s.file i).cancelled = false →
      (s.file i).options.sync ≠ .none → outcomes.sync = some e →
      (s.commit i outcomes).1 ≠ .ok ∧ (s.commit i outcomes).2.disk = s.disk ∧
      ((s.commit i outcomes).2.file i).failure ≠ .ok) ∧
    (∀ i t, i < s.files.count → (s.file i).failure ≠ .ok → Steps step s t →
      (∀ data attempts status t', t.write i data attempts = some (status, t') → status ≠ .ok ∧ t' = t) ∧
      ∀ outcomes, (t.commit i outcomes).1 ≠ .ok ∧ (t.commit i outcomes).2 = t) ∧
    (∀ i < s.files.count, (s.file i).written ≤ (s.file i).options.maximumBytes ∧
      ∀ k, (s.file i).file = some k → (s.disk.content k).length = (s.file i).written) ∧
    ∀ i < s.files.count, (s.file i).temporary ≠ (s.file i).target ∧
      ∀ j < s.files.count, i ≠ j → (s.file i).temporary ≠ [] → (s.file i).temporary ≠ (s.file j).temporary := by
  have hinv := inv_of_reachable h
  refine ⟨hinv.replaced, fun i outcomes ha hok => ?_, fun call t i hstep hi => step_recorded hinv hstep hi,
    fun i data attempts status t ha hw => ?_, fun i outcomes e ha hcommitted hcancelled hsync he => ?_,
    fun i t hi hfailure hsteps => ?_, fun i hi => ?_, fun i hi => ?_⟩
  · rcases commit_spec s i outcomes with ⟨hbad, -⟩ | ⟨code, hbad, -, heq⟩ | ⟨-, -, hfailure, d, hd, heq⟩
    · exact absurd hok hbad
    · rw [heq] at hok
      exact absurd hok hbad
    · rw [heq, put_file_self, put_disk]
      refine ⟨rfl, ?_⟩
      rcases (hinv.sound i ha.1).place with ⟨k, hk⟩ | hreleased
      · obtain rfl : (s.file i).home = d := Option.some.inj (hk.directory.symm.trans hd)
        have hentry : s.disk.entry ((s.file i).home, (s.file i).temporary) = some k := (hk.linked _).mpr rfl
        rw [State.path, Volume.read_rename_target, Volume.read, hentry, Option.map_some, hk.content hfailure]
      · rw [hreleased.directory] at hd
        cases hd
  · rcases write_spec hw hinv ha.1 ha.2 with
      ⟨hsame, -, hrefused⟩ | ⟨k, n, failure, -, -, -, -, -, -, heq, hstatus⟩
    · obtain rfl : t = s := hsame
      refine ⟨fun _ => rfl, fun hok hclosed hlarge hfailure => ?_⟩
      exact (hrefused hfailure).elim hclosed hlarge
    · dsimp only at heq hstatus
      rcases hstatus with ⟨rfl, -, -⟩ | ⟨rfl, hbad⟩
      · exact ⟨fun hlarge => absurd hlarge (by simp), fun hok => absurd rfl hok⟩
      · refine ⟨fun hlarge => ?_, fun hok _ _ => ?_⟩
        · rw [hlarge] at hbad
          rcases hbad with hbad | hbad <;> cases hbad
        · rw [heq, put_file_self]
          exact hok
  · by_cases hfailure : (s.file i).failure = .ok
    · have hcode : osError e ≠ .ok := by cases e <;> simp [osError]
      have heq : s.commit i outcomes = (osError e, s.put i { s.file i with failure := osError e } s.disk) := by
        rw [System.commit]
        simp [hcommitted, hcancelled, hfailure, hsync, he]
      rw [heq, put_file_self]
      exact ⟨hcode, rfl, hcode⟩
    · obtain ⟨hbad, hsame⟩ := commit_of_failure hfailure outcomes
      rw [hsame]
      exact ⟨hbad, rfl, hfailure⟩
  · have hstays := failure_stays hinv hsteps hi hfailure
    refine ⟨fun data attempts status t' hw => ?_, commit_of_failure hstays⟩
    exact write_of_failure hstays hw
  · have hs := hinv.sound i hi
    refine ⟨hs.bounded, fun k hk => ?_⟩
    rcases hs.place with ⟨k', hheld⟩ | hreleased
    · obtain rfl : k' = k := Option.some.inj (hheld.file.symm.trans hk)
      exact hheld.size
    · rw [hreleased.file] at hk
      cases hk
  · refine ⟨(hinv.sound i hi).distinct, fun j hj hne htemporary heq => ?_⟩
    exact hne (hinv.unique i hi j hj htemporary heq)

/-- One object publishes two short writes over the old content; another one for the same target fails in the middle of
its write, and cannot publish. -/
theorem targets_replaced_all_or_nothing_torn : ∃ s,
    run step ⟨⟨fun path => if path = (0, [97]) then some 0 else none, fun _ => [1], 1⟩, 7, 0, ⟨0, fun _ => {}⟩⟩
      [.create [97] {} (some [97]) (.ok 0) fun _ => none, .create [97] {} (some [97]) (.ok 0) fun _ => none,
        .write 0 [2, 3] [.wrote 1, .wrote 1], .write 1 [4, 5] [.wrote 1, .failed false], .commit 0 {}] = some s ∧
    s.disk.read (0, [97]) = some [2, 3] ∧ (s.file 1).failure = .platformError ∧
    (s.commit 1 {}).1 ≠ .ok ∧ (s.commit 1 {}).2 = s := by
  have hrun : (run step ⟨⟨fun path => if path = (0, [97]) then some 0 else none, fun _ => [1], 1⟩, 7, 0,
      ⟨0, fun _ => {}⟩⟩
      [.create [97] {} (some [97]) (.ok 0) fun _ => none, .create [97] {} (some [97]) (.ok 0) fun _ => none,
        .write 0 [2, 3] [.wrote 1, .wrote 1], .write 1 [4, 5] [.wrote 1, .failed false], .commit 0 {}]).map
      (fun s => (s.disk.read (0, [97]), (s.file 1).failure, s.files.count)) =
      some (some [2, 3], .platformError, 2) := by decide +kernel
  obtain ⟨s, hs, heq⟩ := Option.map_eq_some_iff.mp hrun
  simp only [Prod.mk.injEq] at heq
  obtain ⟨hread, hfailure, hcount⟩ := heq
  have hdisk : Volume.WellFormed (⟨fun path => if path = (0, [97]) then some 0 else none, fun _ => [1], 1⟩ : Disk) := by
    intro path n hn
    have hn' : 0 = n := by simpa using (Option.ite_none_right_eq_some.mp hn).2
    exact hn' ▸ Nat.one_pos
  obtain ⟨-, -, -, -, -, hdead, -⟩ := targets_replaced_all_or_nothing ⟨_, ⟨hdisk, rfl, rfl⟩, _, hs⟩
  obtain ⟨-, hcommit⟩ := hdead 1 s (by omega) (by rw [hfailure]; simp) (.refl s)
  exact ⟨s, hs, hread, hfailure, hcommit {}⟩

end History

end ServerCore.Core.AtomicFile
