import Mathlib.Data.List.Basic
import Mathlib.Data.List.Nodup

/-! Association lists kept in strictly increasing key order, as an ordered map iterates. -/

namespace ServerCore.Foundations.OrderedMap

variable {κ α : Type*} [LT κ] [DecidableEq κ] [DecidableLT κ]

/-- Insert unless the key is taken. -/
def insert (key : κ) (value : α) : List (κ × α) → Option (List (κ × α))
  | [] => some [(key, value)]
  | (key', value') :: rest =>
    if key = key' then none
    else if key < key' then some ((key, value) :: (key', value') :: rest)
    else (insert key value rest).map ((key', value') :: ·)

def Sorted (map : List (κ × α)) : Prop := map.Pairwise fun a b => a.1 < b.1

/-- Insert entries one after the other, skipping none. -/
def insertAll (map : List (κ × α)) : List (κ × α) → Option (List (κ × α))
  | [] => some map
  | (key, value) :: entries => (insert key value map).bind fun map' => insertAll map' entries

lemma insert_perm {key : κ} {value : α} {map map' : List (κ × α)} (h : insert key value map = some map') :
    map'.Perm ((key, value) :: map) := by
  induction map generalizing map' with
  | nil =>
    obtain rfl : [(key, value)] = map' := by simpa [insert] using h
    exact .refl _
  | cons entry rest ih =>
    obtain ⟨key', value'⟩ := entry
    simp only [insert] at h
    split_ifs at h with heq hlt
    · obtain rfl := Option.some.inj h
      exact .refl _
    · obtain ⟨rest', hr, rfl⟩ := Option.map_eq_some_iff.mp h
      exact ((ih hr).cons _).trans (.swap _ _ _)

lemma insertAll_perm {map map' entries : List (κ × α)} (h : insertAll map entries = some map') :
    map'.Perm (entries ++ map) := by
  induction entries generalizing map with
  | nil =>
    obtain rfl := Option.some.inj h
    exact .refl _
  | cons entry entries ih =>
    obtain ⟨map₁, hinsert, hrest⟩ := Option.bind_eq_some_iff.mp h
    apply (ih hrest).trans
    exact ((insert_perm hinsert).append_left entries).trans List.perm_middle

variable [Trans (α := κ) (· < ·) (· < ·) (· < ·)]

lemma insert_sorted [Std.Trichotomous (α := κ) (· < ·)] {key : κ} {value : α} {map map' : List (κ × α)} (hs : Sorted map)
    (h : insert key value map = some map') : Sorted map' := by
  induction map generalizing map' with
  | nil =>
    obtain rfl : [(key, value)] = map' := by simpa [insert] using h
    exact List.pairwise_singleton _ _
  | cons entry rest ih =>
    obtain ⟨key', value'⟩ := entry
    obtain ⟨hall, hrest⟩ := List.pairwise_cons.mp hs
    simp only [insert] at h
    split_ifs at h with heq hlt
    · obtain rfl := Option.some.inj h
      refine List.pairwise_cons.mpr ⟨fun entry hentry => ?_, hs⟩
      rcases List.mem_cons.mp hentry with rfl | hentry
      · exact hlt
      · exact Trans.trans hlt (hall entry hentry)
    · obtain ⟨rest', hr, rfl⟩ := Option.map_eq_some_iff.mp h
      refine List.pairwise_cons.mpr ⟨fun entry hentry => ?_, ih hrest hr⟩
      rcases List.mem_cons.mp ((insert_perm hr).mem_iff.mp hentry) with rfl | hentry
      · by_contra hne
        exact heq (Std.Trichotomous.trichotomous _ _ hlt hne)
      · exact hall entry hentry

lemma insertAll_keeps_sorted [Std.Trichotomous (α := κ) (· < ·)] {map map' entries : List (κ × α)} (hs : Sorted map)
    (h : insertAll map entries = some map') : Sorted map' := by
  induction entries generalizing map with
  | nil =>
    obtain rfl := Option.some.inj h
    exact hs
  | cons entry entries ih =>
    obtain ⟨map₁, hinsert, hrest⟩ := Option.bind_eq_some_iff.mp h
    exact ih (insert_sorted hs hinsert) hrest

variable [Std.Irrefl (α := κ) (· < ·)]

omit [DecidableEq κ] [DecidableLT κ] [Trans (α := κ) (· < ·) (· < ·) (· < ·)] in
lemma Sorted.nodup {map : List (κ × α)} (h : Sorted map) : (map.map Prod.fst).Nodup := by
  rw [List.Nodup, List.pairwise_map]
  apply h.imp
  rintro a b hlt heq
  exact Std.Irrefl.irrefl b.1 (heq ▸ hlt)

lemma Sorted.value_unique {map : List (κ × α)} (h : Sorted map) {key : κ} {value value' : α}
    (hv : (key, value) ∈ map) (hv' : (key, value') ∈ map) : value = value' := by
  induction map with
  | nil => cases hv
  | cons entry rest ih =>
    obtain ⟨hall, hrest⟩ := List.pairwise_cons.mp h
    rcases List.mem_cons.mp hv with rfl | hmem <;> rcases List.mem_cons.mp hv' with heq | hmem'
    · exact (Prod.mk.inj heq).2.symm
    · have hlt : key < key := hall (key, value') hmem'
      exact (Std.Irrefl.irrefl key hlt).elim
    · subst heq
      have hlt : key < key := hall (key, value) hmem
      exact (Std.Irrefl.irrefl key hlt).elim
    · exact ih hrest hmem hmem'

lemma insert_none_iff {key : κ} {value : α} {map : List (κ × α)} (h : Sorted map) :
    insert key value map = none ↔ key ∈ map.map Prod.fst := by
  induction map with
  | nil => simp [insert]
  | cons entry rest ih =>
    obtain ⟨key', value'⟩ := entry
    obtain ⟨hall, hrest⟩ := List.pairwise_cons.mp h
    simp only [insert, List.map_cons, List.mem_cons]
    split_ifs with heq hlt
    · simp [heq]
    · simp only [heq, false_or, false_iff]
      intro hmem
      obtain ⟨entry, hentry, rfl⟩ := List.mem_map.mp hmem
      exact Std.Irrefl.irrefl _ (Trans.trans hlt (hall entry hentry))
    · rw [Option.map_eq_none_iff, ih hrest]
      simp [heq]

/-- A key above all others goes to the end. -/
lemma insert_last {key : κ} {value : α} {map : List (κ × α)} (h : ∀ entry ∈ map, entry.1 < key) :
    insert key value map = some (map ++ [(key, value)]) := by
  induction map with
  | nil => rfl
  | cons entry rest ih =>
    obtain ⟨key', value'⟩ := entry
    have hlt : key' < key := h _ List.mem_cons_self
    have hne : key ≠ key' := fun heq => Std.Irrefl.irrefl key' (heq ▸ hlt)
    have hnlt : ¬ key < key' := fun hlt' => Std.Irrefl.irrefl key (Trans.trans hlt' hlt)
    simp only [insert, hne, hnlt, ↓reduceIte, List.cons_append]
    rw [ih fun entry hentry => h entry (List.mem_cons_of_mem _ hentry)]
    rfl

lemma insertAll_sorted {map entries : List (κ × α)} (h : Sorted (map ++ entries)) :
    insertAll map entries = some (map ++ entries) := by
  induction entries generalizing map with
  | nil => simp [insertAll]
  | cons entry entries ih =>
    have hlast : ∀ other ∈ map, other.1 < entry.1 := by
      intro other hother
      exact (List.pairwise_append.mp h).2.2 other hother entry List.mem_cons_self
    simp only [insertAll, insert_last hlast, Option.bind_some]
    rw [ih (by simpa using h), List.append_assoc, List.singleton_append]

lemma insertAll_isSome_iff [Std.Trichotomous (α := κ) (· < ·)] {map entries : List (κ × α)} (h : Sorted map) :
    (insertAll map entries).isSome ↔
      (entries.map Prod.fst).Nodup ∧ ∀ key ∈ entries.map Prod.fst, key ∉ map.map Prod.fst := by
  induction entries generalizing map with
  | nil => simp [insertAll]
  | cons entry entries ih =>
    obtain ⟨key, value⟩ := entry
    simp only [insertAll, List.map_cons, List.nodup_cons, List.mem_cons, forall_eq_or_imp]
    cases hi : insert key value map with
    | none =>
      have hmem := (insert_none_iff h).mp hi
      simp [hmem]
    | some map' =>
      have hnot : key ∉ map.map Prod.fst := fun hmem => by
        rw [(insert_none_iff h).mpr hmem] at hi
        cases hi
      have hkeys (k : κ) : k ∈ map'.map Prod.fst ↔ k = key ∨ k ∈ map.map Prod.fst := by
        rw [((insert_perm hi).map Prod.fst).mem_iff, List.map_cons, List.mem_cons]
      simp only [Option.bind_some, ih (insert_sorted h hi), hkeys, not_or]
      constructor
      · rintro ⟨hnd, hall⟩
        exact ⟨⟨fun hmem => (hall key hmem).1 rfl, hnd⟩, hnot, fun k hk => (hall k hk).2⟩
      · rintro ⟨⟨hk, hnd⟩, -, hall⟩
        exact ⟨hnd, fun k hk' => ⟨fun heq => hk (heq ▸ hk'), hall k hk'⟩⟩

end ServerCore.Foundations.OrderedMap
