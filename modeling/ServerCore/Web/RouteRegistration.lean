import ServerCore.Foundations.GroupedMap
import ServerCore.Core.Status
import ServerCore.Web.RoutePattern

/-! Registering routes, the shapes of their patterns and the group that is chosen among the matching ones. -/

namespace ServerCore.Web

open ServerCore.Core ServerCore.Foundations

structure RouteEntry (τ : Type*) where
  target : τ
  pattern : RoutePattern
  deriving DecidableEq, Repr

abbrev Methods (τ : Type*) := List (Bytes × RouteEntry τ)

def sameRouteShape (left right : RoutePattern) : Bool :=
  left.length == right.length &&
    (left.zip right).all fun (l, r) => l.parameter == r.parameter && (l.parameter || l.value == r.value)

def captureRouteParameters (pattern : RoutePattern) (path : List Bytes) : List (Bytes × Bytes) :=
  (pattern.zip path).filterMap fun (segment, value) => if segment.parameter then some (segment.value, value) else none

inductive Registration (τ : Type*)
  | exact (method path : Bytes) (target : τ)
  | pattern (method : Bytes) (pattern : RoutePattern) (target : τ)
  deriving DecidableEq, Repr

namespace RouteTable

variable {τ : Type*}

def addExact (table : RouteTable (Methods τ)) (method path : Bytes) (target : τ) : ErrorCode × RouteTable (Methods τ) :=
  match GroupedMap.emplace (· == ·) path method ⟨target, []⟩ table.exact with
  | some exact => (.ok, { table with exact })
  | none => (.alreadyExists, table)

def addPattern (table : RouteTable (Methods τ)) (method : Bytes) (pattern : RoutePattern) (target : τ) :
    ErrorCode × RouteTable (Methods τ) :=
  match GroupedMap.emplace sameRouteShape pattern method ⟨target, pattern⟩ table.patterns with
  | some patterns => (.ok, { table with patterns })
  | none => (.alreadyExists, table)

def register (table : RouteTable (Methods τ)) : Registration τ → ErrorCode × RouteTable (Methods τ)
  | .exact method path target => table.addExact method path target
  | .pattern method pattern target => table.addPattern method pattern target

def registerAll (table : RouteTable (Methods τ)) : List (Registration τ) → List ErrorCode × RouteTable (Methods τ)
  | [] => ([], table)
  | registration :: rest =>
    let (code, table) := table.register registration
    let (codes, table) := table.registerAll rest
    (code :: codes, table)

def empty : RouteTable (Methods τ) := ⟨[], []⟩

end RouteTable

namespace RouteMatch

variable {τ : Type*}

def entryFor (selected : RouteMatch (Methods τ)) (method : Bytes) : Option (RouteEntry τ) :=
  selected.methods.bind fun methods =>
    (methods.lookup method).or (if method == ascii "HEAD" then methods.lookup (ascii "GET") else none)

end RouteMatch

def RouteTable.serve {τ : Type*} (table : RouteTable (Methods τ)) (path method : Bytes) : Option (τ × List (Bytes × Bytes)) :=
  let selected := table.find path
  (selected.entryFor method).map fun entry => (entry.target, captureRouteParameters entry.pattern selected.path)

namespace Registration

variable {τ : Type*}

def Repeats : Registration τ → Registration τ → Prop
  | .exact method path _, .exact method' path' _ => method = method' ∧ path = path'
  | .pattern method shape _, .pattern method' shape' _ => method = method' ∧ sameRouteShape shape shape' = true
  | _, _ => False

def exactEntry : Registration τ → Option (Registered Bytes Bytes (RouteEntry τ))
  | .exact method path target => some ⟨path, method, ⟨target, []⟩⟩
  | .pattern .. => none

def patternEntry : Registration τ → Option (Registered RoutePattern Bytes (RouteEntry τ))
  | .exact .. => none
  | .pattern method shape target => some ⟨shape, method, ⟨target, shape⟩⟩

end Registration

section Shapes

variable {p q r : RoutePattern} {path : List Bytes}

@[simp] lemma sameRouteShape_cons (l r : RouteSegment) (p q : RoutePattern) :
    sameRouteShape (l :: p) (r :: q) =
      (l.parameter == r.parameter && (l.parameter || l.value == r.value) && sameRouteShape p q) := by
  simp only [sameRouteShape, List.length_cons, Nat.add_right_cancel_iff, beq_eq_decide, List.zip_cons_cons, List.all_cons]
  ac_rfl

lemma sameRouteShape_iff : sameRouteShape p q = true ↔
    List.Forall₂ (fun l r => l.parameter = r.parameter ∧ (l.parameter = true ∨ l.value = r.value)) p q := by
  induction p generalizing q with
  | nil => cases q <;> simp [sameRouteShape]
  | cons l p ih =>
    cases q with
    | nil => simp [sameRouteShape]
    | cons r q => simp [ih]

lemma sameRouteShape_equivalence : GroupedMap.IsEquivalence sameRouteShape where
  refl p := by
    rw [sameRouteShape_iff]
    exact List.forall₂_same.mpr fun l _ => ⟨rfl, .inr rfl⟩
  symm p q h := by
    rw [sameRouteShape_iff] at h ⊢
    apply h.flip.imp
    intro r l hr
    exact ⟨hr.1.symm, hr.1 ▸ hr.2.imp_right Eq.symm⟩
  trans p q r h h' := by
    induction p generalizing q r with
    | nil =>
      cases q with
      | nil => exact h'
      | cons => cases h
    | cons l p ih =>
      cases q with
      | nil => cases h
      | cons m q =>
        cases r with
        | nil => cases h'
        | cons n r =>
          simp only [sameRouteShape_cons, Bool.and_eq_true, beq_iff_eq, Bool.or_eq_true] at h h' ⊢
          obtain ⟨⟨hk, hv⟩, hp⟩ := h
          obtain ⟨⟨hk', hv'⟩, hq⟩ := h'
          refine ⟨⟨hk.trans hk', ?_⟩, ih q r hp hq⟩
          rcases hv with hv | hv
          · exact .inl hv
          · rw [hk, hv]
            exact hv'

lemma equality_equivalence : GroupedMap.IsEquivalence (κ := Bytes) (· == ·) where
  refl := by simp
  symm := by simp
  trans := by simp

def StaticFirst (p q : RoutePattern) : Prop :=
  ∃ i : ℕ, (∀ j < i, (p[j]?).map RouteSegment.parameter = (q[j]?).map RouteSegment.parameter) ∧
    (p[i]?).map RouteSegment.parameter = some false ∧ (q[i]?).map RouteSegment.parameter = some true

lemma moreSpecific_cons (l r : RouteSegment) (p q : RoutePattern) :
    moreSpecificRoutePattern (l :: p) (r :: q) =
      if l.parameter = r.parameter then moreSpecificRoutePattern p q else p.length == q.length && !l.parameter := by
  by_cases h : l.parameter = r.parameter <;> simp [moreSpecificRoutePattern, h]

lemma staticFirst_cons (l r : RouteSegment) (p q : RoutePattern) :
    StaticFirst (l :: p) (r :: q) ↔
      if l.parameter = r.parameter then StaticFirst p q else l.parameter = false := by
  split_ifs with h
  · constructor
    · rintro ⟨i, hbefore, hl, hr⟩
      cases i with
      | zero => simp_all
      | succ i => exact ⟨i, fun j hj => hbefore (j + 1) (by omega), hl, hr⟩
    · rintro ⟨i, hbefore, hl, hr⟩
      refine ⟨i + 1, fun j hj => ?_, hl, hr⟩
      cases j with
      | zero => simp [h]
      | succ j => exact hbefore j (by omega)
  · constructor
    · rintro ⟨i, hbefore, hl, hr⟩
      cases i with
      | zero => simpa using hl
      | succ i => exact absurd (by simpa using hbefore 0 (by omega)) h
    · intro hl
      refine ⟨0, nofun, by simp [hl], ?_⟩
      simpa [hl] using h

lemma moreSpecific_iff (h : p.length = q.length) : moreSpecificRoutePattern p q = true ↔ StaticFirst p q := by
  induction p generalizing q with
  | nil =>
    obtain rfl := List.length_eq_zero_iff.mp h.symm
    simp [moreSpecificRoutePattern, StaticFirst]
  | cons l p ih =>
    cases q with
    | nil => cases h
    | cons r q =>
      have hlen : p.length = q.length := Nat.succ.inj h
      rw [moreSpecific_cons, staticFirst_cons]
      split_ifs with hk
      · exact ih hlen
      · simp [hlen]

lemma StaticFirst.trans (h : StaticFirst p q) (h' : StaticFirst q r) : StaticFirst p r := by
  obtain ⟨i, hbefore, hp, hq⟩ := h
  obtain ⟨j, hbefore', hq', hr⟩ := h'
  rcases Nat.lt_trichotomy i j with hlt | rfl | hlt
  · exact ⟨i, fun k hk => (hbefore k hk).trans (hbefore' k (by omega)), hp, (hbefore' i hlt).symm.trans hq⟩
  · rw [hq] at hq'
    cases hq'
  · exact ⟨j, fun k hk => (hbefore k (by omega)).trans (hbefore' k hk), (hbefore j hlt).trans hq', hr⟩

lemma StaticFirst.asymm (h : StaticFirst p q) : ¬ StaticFirst q p := by
  intro h'
  obtain ⟨i, -, hp, hp'⟩ := h.trans h'
  rw [hp] at hp'
  cases hp'

lemma matches_length (h : matchesRoutePattern p path = true) : p.length = path.length := by
  simp only [matchesRoutePattern, Bool.and_eq_true, beq_iff_eq] at h
  exact h.1

lemma matches_cons (s : RouteSegment) (p : RoutePattern) (value : Bytes) (path : List Bytes) :
    matchesRoutePattern (s :: p) (value :: path) =
      ((if s.parameter then !value.isEmpty else s.value == value) && matchesRoutePattern p path) := by
  simp only [matchesRoutePattern, List.length_cons, Nat.add_right_cancel_iff, beq_eq_decide, List.zip_cons_cons, List.all_cons]
  ac_rfl

lemma staticFirst_total (hp : matchesRoutePattern p path = true) (hq : matchesRoutePattern q path = true) :
    StaticFirst p q ∨ StaticFirst q p ∨ sameRouteShape p q = true := by
  induction path generalizing p q with
  | nil =>
    obtain rfl := List.length_eq_zero_iff.mp (matches_length hp)
    obtain rfl := List.length_eq_zero_iff.mp (matches_length hq)
    exact .inr (.inr rfl)
  | cons value path ih =>
    cases p with
    | nil => cases hp
    | cons l p =>
      cases q with
      | nil => cases hq
      | cons r q =>
        rw [matches_cons, Bool.and_eq_true] at hp hq
        rw [staticFirst_cons, staticFirst_cons, sameRouteShape_cons]
        by_cases hk : l.parameter = r.parameter
        · rw [if_pos hk, if_pos hk.symm]
          refine (ih hp.2 hq.2).imp_right (Or.imp_right fun hs => ?_)
          cases hl : l.parameter with
          | true => simp [← hk, hl, hs]
          | false =>
            have hlv := hp.1
            have hrv := hq.1
            rw [hl] at hlv
            rw [← hk, hl] at hrv
            simp only [Bool.false_eq_true, ↓reduceIte, beq_iff_eq] at hlv hrv
            simp [← hk, hl, hs, hlv, hrv]
        · rw [if_neg hk, if_neg (Ne.symm hk)]
          cases hl : l.parameter with
          | false => exact .inl rfl
          | true =>
            rw [hl] at hk
            exact .inr (.inl (by simpa using Ne.symm hk))

end Shapes

section Selection

variable {μ : Type*} {path : List Bytes} {p q r : RoutePattern} {groups : List (RoutePattern × μ)}

lemma matches_congr (h : sameRouteShape p q = true) : matchesRoutePattern p path = matchesRoutePattern q path := by
  induction p generalizing q path with
  | nil =>
    cases q with
    | nil => rfl
    | cons => cases h
  | cons l p ih =>
    cases q with
    | nil => cases h
    | cons r q =>
      cases path with
      | nil => rfl
      | cons value path =>
        simp only [sameRouteShape_cons, Bool.and_eq_true, beq_iff_eq, Bool.or_eq_true] at h
        obtain ⟨⟨hk, hv⟩, hp⟩ := h
        rw [matches_cons, matches_cons, ih hp, ← hk]
        rcases hv with hv | hv
        · simp [hv]
        · rw [hv]

lemma kind_congr (h : sameRouteShape p q = true) (i : ℕ) :
    (p[i]?).map RouteSegment.parameter = (q[i]?).map RouteSegment.parameter := by
  rw [sameRouteShape_iff] at h
  induction h generalizing i with
  | nil => rfl
  | cons hl _ ih =>
    cases i with
    | zero => simpa using hl.1
    | succ i => simpa using ih i

lemma StaticFirst.congr {p' q' : RoutePattern} (h : StaticFirst p q) (hp : sameRouteShape p p' = true)
    (hq : sameRouteShape q q' = true) : StaticFirst p' q' := by
  obtain ⟨i, hbefore, hl, hr⟩ := h
  refine ⟨i, fun j hj => ?_, (kind_congr hp i).symm.trans hl, (kind_congr hq i).symm.trans hr⟩
  exact (kind_congr hp j).symm.trans ((hbefore j hj).trans (kind_congr hq j))

structure Best (path : List Bytes) (groups : List (RoutePattern × μ)) (best : RoutePattern × μ) : Prop where
  mem : best ∈ groups
  admits : matchesRoutePattern best.1 path = true
  first : ∀ g ∈ groups, matchesRoutePattern g.1 path = true → g = best ∨ StaticFirst best.1 g.1

lemma best_append (group : RoutePattern × μ) :
    RouteTable.best path (groups ++ [group]) =
      if matchesRoutePattern group.1 path &&
          ((RouteTable.best path groups).all fun best => moreSpecificRoutePattern group.1 best.1) then some group
      else RouteTable.best path groups := by
  rw [RouteTable.best, List.foldl_append]
  rfl

lemma best_spec (h : groups.Pairwise fun g g' => sameRouteShape g.1 g'.1 = false) :
    match RouteTable.best path groups with
    | some best => Best path groups best
    | none => ∀ g ∈ groups, matchesRoutePattern g.1 path = false := by
  induction groups using List.reverseRecOn with
  | nil => exact nofun
  | append_singleton groups group ih =>
    obtain ⟨hgroups, -, hcross⟩ := List.pairwise_append.mp h
    have hprior := ih hgroups
    rw [best_append]
    cases hm : matchesRoutePattern group.1 path with
    | false =>
      simp only [Bool.false_and, Bool.false_eq_true, ↓reduceIte]
      cases hb : RouteTable.best path groups with
      | none =>
        rw [hb] at hprior
        simpa [hm, or_imp, forall_and] using hprior
      | some best =>
        rw [hb] at hprior
        refine ⟨List.mem_append_left _ hprior.mem, hprior.admits, fun g hg hgm => ?_⟩
        rcases List.mem_append.mp hg with hg | hg
        · exact hprior.first g hg hgm
        · obtain rfl := List.mem_singleton.mp hg
          simp [hm] at hgm
    | true =>
      cases hb : RouteTable.best path groups with
      | none =>
        rw [hb] at hprior
        refine ⟨by simp, hm, fun g hg hgm => ?_⟩
        rcases List.mem_append.mp hg with hg | hg
        · simp [hprior g hg] at hgm
        · exact .inl (List.mem_singleton.mp hg)
      | some best =>
        rw [hb] at hprior
        have hlen : group.1.length = best.1.length := (matches_length hm).trans (matches_length hprior.admits).symm
        simp only [Option.all_some, Bool.true_and]
        cases hs : moreSpecificRoutePattern group.1 best.1 with
        | true =>
          have hfirst := (moreSpecific_iff hlen).mp hs
          refine ⟨by simp, hm, fun g hg hgm => ?_⟩
          rcases List.mem_append.mp hg with hg | hg
          · rcases hprior.first g hg hgm with rfl | hbefore
            · exact .inr hfirst
            · exact .inr (hfirst.trans hbefore)
          · exact .inl (List.mem_singleton.mp hg)
        | false =>
          refine ⟨List.mem_append_left _ hprior.mem, hprior.admits, fun g hg hgm => ?_⟩
          rcases List.mem_append.mp hg with hg | hg
          · exact hprior.first g hg hgm
          · obtain rfl := List.mem_singleton.mp hg
            refine .inr ?_
            rcases staticFirst_total hprior.admits hm with hfirst | hfirst | hsame
            · exact hfirst
            · simp [(moreSpecific_iff hlen).mpr hfirst] at hs
            · simp [hcross best hprior.mem g (by simp)] at hsame

end Selection

end ServerCore.Web
