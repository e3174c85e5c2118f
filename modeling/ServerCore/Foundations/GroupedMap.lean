import ServerCore.Foundations.OrderedMap

/-! Registrations grouped by an equivalence of their keys, with an ordered map of names in every group. -/

namespace ServerCore.Foundations

structure Registered (κ μ α : Type*) where
  key : κ
  name : μ
  value : α
  deriving DecidableEq, Repr

namespace GroupedMap

variable {κ μ α : Type*} (same : κ → κ → Bool)

def entriesOf (registered : List (Registered κ μ α)) (key : κ) : List (μ × α) :=
  (registered.filter fun r => same key r.key).map fun r => (r.name, r.value)

structure IsEquivalence : Prop where
  refl : ∀ k, same k k = true
  symm : ∀ k k', same k k' = true → same k' k = true
  trans : ∀ k k' k'', same k k' = true → same k' k'' = true → same k k'' = true

/-- What groups hold after registrations without a clash, whatever their order was. -/
structure Holds [LT μ] (registered : List (Registered κ μ α)) (groups : List (κ × List (μ × α))) : Prop where
  sorted : ∀ g ∈ groups, OrderedMap.Sorted g.2
  entries : ∀ g ∈ groups, g.2.Perm (entriesOf same registered g.1)
  separate : groups.Pairwise fun g g' => same g.1 g'.1 = false
  complete : ∀ r ∈ registered, ∃ g ∈ groups, same g.1 r.key = true
  sound : ∀ g ∈ groups, ∃ r ∈ registered, r.key = g.1

section Insertion

variable [LT μ] [DecidableEq μ] [DecidableLT μ]

/-- Insert into the group of the key unless the name is taken there; a new key starts a group. -/
def emplace (key : κ) (name : μ) (value : α) : List (κ × List (μ × α)) → Option (List (κ × List (μ × α)))
  | [] => some [(key, [(name, value)])]
  | (key', names) :: groups =>
    if same key' key then (OrderedMap.insert name value names).map fun names' => (key', names') :: groups
    else (emplace key name value groups).map ((key', names) :: ·)

-- One pass of `emplace` over the groups: where the new entry goes.
lemma emplace_cases (key : κ) (name : μ) (value : α) (groups : List (κ × List (μ × α))) :
    (∃ front group names' rest, groups = front ++ group :: rest ∧ (∀ g ∈ front, same g.1 key = false) ∧
        same group.1 key = true ∧ OrderedMap.insert name value group.2 = some names' ∧
        emplace same key name value groups = some (front ++ (group.1, names') :: rest)) ∨
    (∃ group ∈ groups, same group.1 key = true ∧ OrderedMap.insert name value group.2 = none ∧
        emplace same key name value groups = none) ∨
    (∀ g ∈ groups, same g.1 key = false) ∧ emplace same key name value groups = some (groups ++ [(key, [(name, value)])]) := by
  induction groups with
  | nil => exact .inr (.inr ⟨nofun, rfl⟩)
  | cons group groups ih =>
    obtain ⟨key', names⟩ := group
    cases hs : same key' key with
    | true =>
      simp only [emplace, hs, ↓reduceIte]
      cases hi : OrderedMap.insert name value names with
      | none => exact .inr (.inl ⟨(key', names), List.mem_cons_self, hs, hi, rfl⟩)
      | some names' => exact .inl ⟨[], (key', names), names', groups, rfl, nofun, hs, hi, rfl⟩
    | false =>
      simp only [emplace, hs, Bool.false_eq_true, ↓reduceIte]
      rcases ih with ⟨front, group, names', rest, rfl, hfront, hg, hi, he⟩ | ⟨group, hmem, hg, hi, he⟩ | ⟨hall, he⟩
      · refine .inl ⟨(key', names) :: front, group, names', rest, rfl, ?_, hg, hi, by rw [he]; rfl⟩
        intro g hmem
        rcases List.mem_cons.mp hmem with rfl | hmem
        · exact hs
        · exact hfront g hmem
      · exact .inr (.inl ⟨group, List.mem_cons_of_mem _ hmem, hg, hi, by rw [he]; rfl⟩)
      · refine .inr (.inr ⟨?_, by rw [he]; rfl⟩)
        intro g hmem
        rcases List.mem_cons.mp hmem with rfl | hmem
        · exact hs
        · exact hall g hmem

end Insertion

variable {same} {registered registered' : List (Registered κ μ α)} {groups groups' : List (κ × List (μ × α))}

lemma IsEquivalence.congr (he : IsEquivalence same) {k k' : κ} (h : same k k' = true) (k'' : κ) :
    same k k'' = same k' k'' := by
  cases hk : same k k'' with
  | true => exact (he.trans _ _ _ (he.symm _ _ h) hk).symm
  | false =>
    cases hk' : same k' k'' with
    | true => simp [he.trans _ _ _ h hk'] at hk
    | false => rfl

lemma entriesOf_congr (he : IsEquivalence same) {k k' : κ} (h : same k k' = true) :
    entriesOf same registered k = entriesOf same registered k' := by
  simp only [entriesOf, he.congr h]

lemma entriesOf_append (key : κ) (r : Registered κ μ α) :
    entriesOf same (registered ++ [r]) key =
      entriesOf same registered key ++ if same key r.key then [(r.name, r.value)] else [] := by
  cases hk : same key r.key <;> simp [entriesOf, hk]

lemma mem_entriesOf {key : κ} {name : μ} {value : α} :
    (name, value) ∈ entriesOf same registered key ↔ ∃ r ∈ registered, same key r.key = true ∧ r.name = name ∧ r.value = value := by
  simp [entriesOf, and_assoc]

lemma holds_nil [LT μ] : Holds same ([] : List (Registered κ μ α)) [] where
  sorted := nofun
  entries := nofun
  separate := .nil
  complete := nofun
  sound := nofun

lemma Holds.mem_iff [LT μ] (h : Holds same registered groups) {group : κ × List (μ × α)} (hg : group ∈ groups) {name : μ}
    {value : α} : (name, value) ∈ group.2 ↔ ∃ r ∈ registered, same group.1 r.key = true ∧ r.name = name ∧ r.value = value := by
  rw [(h.entries group hg).mem_iff, mem_entriesOf]

lemma Holds.groups_nil_iff [LT μ] (h : Holds same registered groups) : groups = [] ↔ registered = [] := by
  constructor
  · rintro rfl
    apply List.eq_nil_iff_forall_not_mem.mpr
    intro r hr
    obtain ⟨g, hg, -⟩ := h.complete r hr
    cases hg
  · rintro rfl
    apply List.eq_nil_iff_forall_not_mem.mpr
    intro g hg
    obtain ⟨r, hr, -⟩ := h.sound g hg
    cases hr

section Emplace

variable [LT μ] [DecidableEq μ] [DecidableLT μ] [Trans (α := μ) (· < ·) (· < ·) (· < ·)] [Std.Irrefl (α := μ) (· < ·)]

lemma name_taken_iff (value : α) (h : Holds same registered groups) (he : IsEquivalence same) {group : κ × List (μ × α)}
    (hg : group ∈ groups) {key : κ} (hs : same group.1 key = true) {name : μ} :
    OrderedMap.insert name value group.2 = none ↔ ∃ r ∈ registered, same r.key key = true ∧ r.name = name := by
  rw [OrderedMap.insert_none_iff (h.sorted group hg), ((h.entries group hg).map Prod.fst).mem_iff]
  constructor
  · intro hmem
    obtain ⟨⟨name', value'⟩, hentry, rfl⟩ := List.mem_map.mp hmem
    obtain ⟨r, hr, hk, hn, -⟩ := mem_entriesOf.mp hentry
    exact ⟨r, hr, he.trans _ _ _ (he.symm _ _ hk) hs, hn⟩
  · rintro ⟨r, hr, hk, rfl⟩
    refine List.mem_map.mpr ⟨(r.name, r.value), mem_entriesOf.mpr ⟨r, hr, ?_, rfl, rfl⟩, rfl⟩
    exact he.trans _ _ _ hs (he.symm _ _ hk)

/-- A registration fails exactly when its name is taken in its group. -/
lemma emplace_none_iff (h : Holds same registered groups) (he : IsEquivalence same) {key : κ} {name : μ} {value : α} :
    emplace same key name value groups = none ↔ ∃ r ∈ registered, same r.key key = true ∧ r.name = name := by
  rcases emplace_cases same key name value groups with ⟨front, group, names', rest, hgroups, -, hs, hi, heq⟩ | ⟨group, hmem, hs, hi, heq⟩ |
    ⟨hall, heq⟩
  · have hg : group ∈ groups := by simp [hgroups]
    rw [heq, ← name_taken_iff value h he hg hs, hi]
    simp
  · rw [heq, ← name_taken_iff value h he hmem hs, hi]
    simp
  · rw [heq]
    simp only [reduceCtorEq, false_iff]
    rintro ⟨r, hr, hk, -⟩
    obtain ⟨g, hg, hsame⟩ := h.complete r hr
    have := he.trans _ _ _ hsame hk
    simp [hall g hg] at this

lemma emplace_holds [Std.Trichotomous (α := μ) (· < ·)] (h : Holds same registered groups) (he : IsEquivalence same)
    {r : Registered κ μ α} (hemplace : emplace same r.key r.name r.value groups = some groups') :
    Holds same (registered ++ [r]) groups' := by
  rcases emplace_cases same r.key r.name r.value groups with ⟨front, group, names', rest, rfl, hfront, hs, hi, heq⟩ | ⟨_, _, _, _, heq⟩ |
    ⟨hall, heq⟩
  · obtain rfl := Option.some.inj (heq.symm.trans hemplace)
    have hg : group ∈ front ++ group :: rest := by simp
    obtain ⟨hsf, hsr, hcross⟩ := List.pairwise_append.mp h.separate
    obtain ⟨hsg, hsr'⟩ := List.pairwise_cons.mp hsr
    have hother : ∀ g ∈ rest, same g.1 r.key = false := by
      intro g hmem
      cases hk : same g.1 r.key with
      | false => rfl
      | true =>
        have := he.trans _ _ _ hs (he.symm _ _ hk)
        simp [hsg g hmem] at this
    have hmem_iff (g : κ × List (μ × α)) (hg' : g ∈ front ++ (group.1, names') :: rest) :
        g = (group.1, names') ∨ g ∈ front ++ group :: rest ∧ same g.1 r.key = false := by
      simp only [List.mem_append, List.mem_cons] at hg' ⊢
      rcases hg' with hg' | hg' | hg'
      · exact .inr ⟨.inl hg', hfront g hg'⟩
      · exact .inl hg'
      · exact .inr ⟨.inr (.inr hg'), hother g hg'⟩
    refine ⟨fun g hg' => ?_, fun g hg' => ?_, ?_, fun q hq => ?_, fun g hg' => ?_⟩
    · rcases hmem_iff g hg' with rfl | ⟨hold, -⟩
      · exact OrderedMap.insert_sorted (h.sorted group hg) hi
      · exact h.sorted g hold
    · rw [entriesOf_append]
      rcases hmem_iff g hg' with rfl | ⟨hold, hne⟩
      · rw [if_pos hs]
        refine (OrderedMap.insert_perm hi).trans ?_
        exact ((h.entries group hg).cons _).trans (List.perm_append_singleton _ _).symm
      · rw [if_neg (by simp [hne]), List.append_nil]
        exact h.entries g hold
    · exact List.pairwise_append.mpr ⟨hsf, List.pairwise_cons.mpr ⟨hsg, hsr'⟩, fun g hg' g' hg'' => by
        rcases List.mem_cons.mp hg'' with rfl | hg''
        · exact hcross g hg' group List.mem_cons_self
        · exact hcross g hg' g' (List.mem_cons_of_mem _ hg'')⟩
    · rcases List.mem_append.mp hq with hq | hq
      · obtain ⟨g, hg', hsame⟩ := h.complete q hq
        simp only [List.mem_append, List.mem_cons] at hg'
        rcases hg' with hg' | rfl | hg'
        · exact ⟨g, by simp [hg'], hsame⟩
        · exact ⟨(g.1, names'), by simp, hsame⟩
        · exact ⟨g, by simp [hg'], hsame⟩
      · obtain rfl := List.mem_singleton.mp hq
        exact ⟨(group.1, names'), by simp, hs⟩
    · rcases hmem_iff g hg' with rfl | ⟨hold, -⟩
      · obtain ⟨q, hq, hk⟩ := h.sound group hg
        exact ⟨q, List.mem_append_left _ hq, hk⟩
      · obtain ⟨q, hq, hk⟩ := h.sound g hold
        exact ⟨q, List.mem_append_left _ hq, hk⟩
  · simp [heq] at hemplace
  · obtain rfl := Option.some.inj (heq.symm.trans hemplace)
    have hnew : entriesOf same registered r.key = [] := by
      rw [entriesOf, List.map_eq_nil_iff, List.filter_eq_nil_iff]
      intro q hq hk
      obtain ⟨g, hg, hsame⟩ := h.complete q hq
      have := he.trans _ _ _ hsame (he.symm _ _ hk)
      simp [hall g hg] at this
    refine ⟨fun g hg => ?_, fun g hg => ?_, ?_, fun q hq => ?_, fun g hg => ?_⟩
    · rcases List.mem_append.mp hg with hg | hg
      · exact h.sorted g hg
      · obtain rfl := List.mem_singleton.mp hg
        exact List.pairwise_singleton _ _
    · rw [entriesOf_append]
      rcases List.mem_append.mp hg with hg | hg
      · rw [if_neg (by simp [hall g hg]), List.append_nil]
        exact h.entries g hg
      · obtain rfl := List.mem_singleton.mp hg
        rw [if_pos (he.refl _), hnew]
        exact .refl _
    · refine List.pairwise_append.mpr ⟨h.separate, List.pairwise_singleton _ _, fun g hg g' hg' => ?_⟩
      obtain rfl := List.mem_singleton.mp hg'
      exact hall g hg
    · rcases List.mem_append.mp hq with hq | hq
      · obtain ⟨g, hg, hsame⟩ := h.complete q hq
        exact ⟨g, List.mem_append_left _ hg, hsame⟩
      · obtain rfl := List.mem_singleton.mp hq
        exact ⟨_, List.mem_append_right _ (List.mem_singleton_self _), he.refl _⟩
    · rcases List.mem_append.mp hg with hg | hg
      · obtain ⟨q, hq, hk⟩ := h.sound g hg
        exact ⟨q, List.mem_append_left _ hq, hk⟩
      · obtain rfl := List.mem_singleton.mp hg
        exact ⟨r, by simp, rfl⟩

/-- Groups with equivalent keys that hold the same registrations in any order are equal. -/
lemma Holds.group_unique [Std.Asymm (α := μ) (· < ·)] (h : Holds same registered groups)
    (h' : Holds same registered' groups') (he : IsEquivalence same) (hp : registered.Perm registered') {g g' : κ × List (μ × α)}
    (hg : g ∈ groups) (hg' : g' ∈ groups') (hs : same g.1 g'.1 = true) : g.2 = g'.2 := by
  have hperm : g.2.Perm g'.2 := by
    apply (h.entries g hg).trans
    rw [entriesOf_congr he hs]
    exact (((hp.filter _).map _)).trans (h'.entries g' hg').symm
  exact hperm.eq_of_pairwise (fun a b _ _ hab hba => (Std.Asymm.asymm _ _ hab hba).elim) (h.sorted g hg) (h'.sorted g' hg')

/-- A key finds the same group whatever the order of the registrations was. -/
lemma Holds.find_perm [Std.Asymm (α := μ) (· < ·)] (h : Holds same registered groups) (h' : Holds same registered' groups')
    (he : IsEquivalence same) (hp : registered.Perm registered') (key : κ) :
    (groups.find? fun g => same g.1 key).map Prod.snd = (groups'.find? fun g => same g.1 key).map Prod.snd := by
  have hnone {l l' : List (Registered κ μ α)} {gs gs' : List (κ × List (μ × α))} (hl : Holds same l gs) (hl' : Holds same l' gs')
      (hll : l.Perm l') (hn : gs.find? (fun g => same g.1 key) = none) : gs'.find? (fun g => same g.1 key) = none := by
    rw [List.find?_eq_none] at hn ⊢
    intro g hg hs
    obtain ⟨r, hr, hk⟩ := hl'.sound g hg
    obtain ⟨g', hg', hs'⟩ := hl.complete r (hll.mem_iff.mpr hr)
    exact hn g' hg' (he.trans _ _ _ hs' (hk ▸ hs))
  cases hf : groups.find? fun g => same g.1 key with
  | none => rw [hnone h h' hp hf]
  | some g =>
    cases hf' : groups'.find? fun g => same g.1 key with
    | none => simp [hnone h' h hp.symm hf'] at hf
    | some g' =>
      have hg : same g.1 key = true := by simpa using List.find?_some hf
      have hg' : same g'.1 key = true := by simpa using List.find?_some hf'
      have hs := he.trans _ _ _ hg (he.symm _ _ hg')
      exact congrArg some (h.group_unique h' he hp (List.mem_of_find?_eq_some hf) (List.mem_of_find?_eq_some hf') hs)

end Emplace

end GroupedMap

end ServerCore.Foundations
