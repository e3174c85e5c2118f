import ServerCore.Web.RouteRegistration

/-! The order of registrations never decides which group a path selects. -/

namespace ServerCore.Web

open ServerCore.Core ServerCore.Foundations

section Registering

open Registration

variable {τ : Type*} {registered registered' : List (Registration τ)} {table table' : RouteTable (Methods τ)}

structure TableHolds (registered : List (Registration τ)) (table : RouteTable (Methods τ)) : Prop where
  exact : GroupedMap.Holds (· == ·) (registered.filterMap exactEntry) table.exact
  patterns : GroupedMap.Holds sameRouteShape (registered.filterMap patternEntry) table.patterns

lemma tableHolds_empty : TableHolds ([] : List (Registration τ)) .empty where
  exact := GroupedMap.holds_nil
  patterns := GroupedMap.holds_nil

lemma mem_exactEntries {key name : Bytes} {entry : RouteEntry τ} :
    ⟨key, name, entry⟩ ∈ registered.filterMap exactEntry ↔ entry.pattern = [] ∧ .exact name key entry.target ∈ registered := by
  rw [List.mem_filterMap]
  constructor
  · rintro ⟨registration, hmem, heq⟩
    cases registration with
    | pattern => cases heq
    | exact method path target =>
      cases heq
      exact ⟨rfl, hmem⟩
  · obtain ⟨target, pattern⟩ := entry
    rintro ⟨rfl, hmem⟩
    exact ⟨_, hmem, rfl⟩

lemma mem_patternEntries {key : RoutePattern} {name : Bytes} {entry : RouteEntry τ} :
    ⟨key, name, entry⟩ ∈ registered.filterMap patternEntry ↔ entry.pattern = key ∧ .pattern name key entry.target ∈ registered := by
  rw [List.mem_filterMap]
  constructor
  · rintro ⟨registration, hmem, heq⟩
    cases registration with
    | exact => cases heq
    | pattern method shape target =>
      cases heq
      exact ⟨rfl, hmem⟩
  · obtain ⟨target, pattern⟩ := entry
    rintro ⟨rfl, hmem⟩
    exact ⟨_, hmem, rfl⟩

lemma Registration.Repeats.symm {r r' : Registration τ} (h : r.Repeats r') : r'.Repeats r := by
  cases r with
  | exact =>
    cases r' with
    | exact => exact ⟨h.1.symm, h.2.symm⟩
    | pattern => exact h
  | pattern =>
    cases r' with
    | exact => exact h
    | pattern => exact ⟨h.1.symm, sameRouteShape_equivalence.symm _ _ h.2⟩

lemma Registration.Repeats.trans {r r' r'' : Registration τ} (h : r.Repeats r') (h' : r'.Repeats r'') : r.Repeats r'' := by
  cases r with
  | exact =>
    cases r' with
    | pattern => exact h.elim
    | exact =>
      cases r'' with
      | pattern => exact h'
      | exact => exact ⟨h.1.trans h'.1, h.2.trans h'.2⟩
  | pattern =>
    cases r' with
    | exact => exact h.elim
    | pattern =>
      cases r'' with
      | exact => exact h'
      | pattern => exact ⟨h.1.trans h'.1, sameRouteShape_equivalence.trans _ _ _ h.2 h'.2⟩

lemma TableHolds.register (h : TableHolds registered table) (r : Registration τ) :
    (∃ q ∈ registered, q.Repeats r) ∧ table.register r = (.alreadyExists, table) ∨
    (∀ q ∈ registered, ¬ q.Repeats r) ∧ ∃ table', table.register r = (.ok, table') ∧ TableHolds (registered ++ [r]) table' := by
  cases r with
  | exact method path target =>
    have hnone : GroupedMap.emplace (· == ·) path method ⟨target, []⟩ table.exact = none ↔ _ :=
      GroupedMap.emplace_none_iff h.exact equality_equivalence
    simp only [RouteTable.register, RouteTable.addExact]
    cases he : GroupedMap.emplace (· == ·) path method ⟨target, []⟩ table.exact with
    | none =>
      obtain ⟨⟨key, name, entry⟩, hmem, hkey, rfl⟩ := hnone.mp he
      obtain ⟨-, hq⟩ := mem_exactEntries.mp hmem
      exact .inl ⟨⟨_, hq, rfl, by simpa using hkey⟩, rfl⟩
    | some exact =>
      refine .inr ⟨fun q hq hr => ?_, _, rfl, ?_, ?_⟩
      · cases q with
        | pattern => exact hr
        | exact method' path' target' =>
          obtain ⟨rfl, rfl⟩ := hr
          have hmem : ⟨path', method', ⟨target', []⟩⟩ ∈ registered.filterMap exactEntry := mem_exactEntries.mpr ⟨rfl, hq⟩
          rw [hnone.mpr ⟨_, hmem, by simp, rfl⟩] at he
          cases he
      · rw [List.filterMap_append]
        exact GroupedMap.emplace_holds h.exact equality_equivalence (r := ⟨path, method, ⟨target, []⟩⟩) he
      · rw [List.filterMap_append, show [Registration.exact method path target].filterMap patternEntry = [] from rfl, List.append_nil]
        exact h.patterns
  | pattern method shape target =>
    have hnone : GroupedMap.emplace sameRouteShape shape method ⟨target, shape⟩ table.patterns = none ↔ _ :=
      GroupedMap.emplace_none_iff h.patterns sameRouteShape_equivalence
    simp only [RouteTable.register, RouteTable.addPattern]
    cases he : GroupedMap.emplace sameRouteShape shape method ⟨target, shape⟩ table.patterns with
    | none =>
      obtain ⟨⟨key, name, entry⟩, hmem, hkey, rfl⟩ := hnone.mp he
      obtain ⟨-, hq⟩ := mem_patternEntries.mp hmem
      exact .inl ⟨⟨_, hq, rfl, hkey⟩, rfl⟩
    | some patterns =>
      refine .inr ⟨fun q hq hr => ?_, _, rfl, ?_, ?_⟩
      · cases q with
        | exact => exact hr
        | pattern method' shape' target' =>
          obtain ⟨rfl, hs⟩ := hr
          have hmem : ⟨shape', method', ⟨target', shape'⟩⟩ ∈ registered.filterMap patternEntry :=
            mem_patternEntries.mpr ⟨rfl, hq⟩
          rw [hnone.mpr ⟨_, hmem, hs, rfl⟩] at he
          cases he
      · rw [List.filterMap_append, show [Registration.pattern method shape target].filterMap exactEntry = [] from rfl,
          List.append_nil]
        exact h.exact
      · rw [List.filterMap_append]
        exact GroupedMap.emplace_holds h.patterns sameRouteShape_equivalence (r := ⟨shape, method, ⟨target, shape⟩⟩) he

lemma TableHolds.registerAll {rest : List (Registration τ)} (h : TableHolds registered table)
    (hd : (registered ++ rest).Pairwise fun r r' => ¬ r.Repeats r') :
    ∃ table', table.registerAll rest = (List.replicate rest.length .ok, table') ∧ TableHolds (registered ++ rest) table' := by
  induction rest generalizing registered table with
  | nil => exact ⟨table, rfl, by simpa using h⟩
  | cons r rest ih =>
    rcases h.register r with ⟨⟨q, hq, hr⟩, -⟩ | ⟨-, next, hregister, hnext⟩
    · exact absurd hr ((List.pairwise_append.mp hd).2.2 q hq r List.mem_cons_self)
    · obtain ⟨table', hall, hholds⟩ := ih hnext (by simpa using hd)
      refine ⟨table', ?_, by simpa using hholds⟩
      simp only [RouteTable.registerAll, hregister, hall]
      rfl

lemma TableHolds.history {rest : List (Registration τ)} (h : TableHolds registered table) :
    ∃ accepted, TableHolds accepted (table.registerAll rest).2 ∧ (∀ q ∈ registered, q ∈ accepted) ∧
      ∀ q ∈ rest, ∃ p ∈ accepted, p.Repeats q := by
  induction rest generalizing registered table with
  | nil => exact ⟨registered, h, fun q hq => hq, nofun⟩
  | cons r rest ih =>
    rcases h.register r with ⟨⟨p, hp, hr⟩, hregister⟩ | ⟨-, next, hregister, hnext⟩
    · obtain ⟨accepted, hholds, hkeep, hrest⟩ := ih h
      refine ⟨accepted, ?_, hkeep, fun q hq => ?_⟩
      · simpa only [RouteTable.registerAll, hregister] using hholds
      · rcases List.mem_cons.mp hq with rfl | hq
        · exact ⟨p, hkeep p hp, hr⟩
        · exact hrest q hq
    · obtain ⟨accepted, hholds, hkeep, hrest⟩ := ih hnext
      refine ⟨accepted, ?_, fun q hq => hkeep q (List.mem_append_left _ hq), fun q hq => ?_⟩
      · simpa only [RouteTable.registerAll, hregister] using hholds
      · rcases List.mem_cons.mp hq with rfl | hq
        · refine ⟨q, hkeep q (by simp), ?_⟩
          cases q with
          | exact => exact ⟨rfl, rfl⟩
          | pattern => exact ⟨rfl, sameRouteShape_equivalence.refl _⟩
        · exact hrest q hq

end Registering

section Selecting

open Registration

variable {τ : Type*} {registered registered' : List (Registration τ)} {table table' : RouteTable (Methods τ)} {path : Bytes}
  {segments : List Bytes} {p q : RoutePattern}

/-- A registered shape that matches and stands before every other registered one that matches. -/
structure Foremost (registered : List (Registration τ)) (segments : List Bytes) (shape : RoutePattern) : Prop where
  mem : ∃ method target, .pattern method shape target ∈ registered
  admits : matchesRoutePattern shape segments = true
  first : ∀ method other target, .pattern method other target ∈ registered → matchesRoutePattern other segments = true →
    sameRouteShape shape other = true ∨ StaticFirst shape other

def HasExact (registered : List (Registration τ)) (path : Bytes) : Prop := ∃ method target, .exact method path target ∈ registered

inductive Selects (registered : List (Registration τ)) (path : Bytes) : RouteMatch (Methods τ) → Prop
  | exact (methods : Methods τ) : HasExact registered path → (methods.map Prod.fst).Nodup →
      (∀ method entry, (method, entry) ∈ methods ↔ entry.pattern = [] ∧ .exact method path entry.target ∈ registered) →
      Selects registered path { methods := some methods }
  | pattern (segments : List Bytes) (shape : RoutePattern) (methods : Methods τ) : ¬ HasExact registered path →
      decodeRoutePath path = some segments → Foremost registered segments shape →
      (∀ other, Foremost registered segments other → sameRouteShape shape other = true) → (methods.map Prod.fst).Nodup →
      (∀ method entry, (method, entry) ∈ methods ↔
        sameRouteShape shape entry.pattern = true ∧ .pattern method entry.pattern entry.target ∈ registered) →
      Selects registered path { methods := some methods, path := segments }
  | missing (selected : RouteMatch (Methods τ)) : ¬ HasExact registered path →
      (∀ segments, decodeRoutePath path = some segments → ∀ method shape target, .pattern method shape target ∈ registered →
        matchesRoutePattern shape segments = false) → selected.methods = none → Selects registered path selected

lemma Foremost.perm (h : Foremost registered segments p) (hp : registered.Perm registered') : Foremost registered' segments p where
  mem := h.mem.imp fun _ => Exists.imp fun _ => hp.mem_iff.mp
  admits := h.admits
  first method other target hmem := h.first method other target (hp.mem_iff.mpr hmem)

lemma Foremost.unique (h : Foremost registered segments p) (h' : Foremost registered segments q) : sameRouteShape p q = true := by
  obtain ⟨method, target, hmem⟩ := h.mem
  obtain ⟨method', target', hmem'⟩ := h'.mem
  rcases h.first method' q target' hmem' h'.admits with hs | hfirst
  · exact hs
  · rcases h'.first method p target hmem h.admits with hs | hfirst'
    · exact sameRouteShape_equivalence.symm _ _ hs
    · exact (hfirst.asymm hfirst').elim

lemma TableHolds.best (h : TableHolds registered table) (segments : List Bytes) :
    match RouteTable.best segments table.patterns with
    | some best => best ∈ table.patterns ∧ Foremost registered segments best.1
    | none => ∀ method shape target, .pattern method shape target ∈ registered → matchesRoutePattern shape segments = false := by
  have hspec := @best_spec _ segments _ h.patterns.separate
  have hgroup (method : Bytes) (shape : RoutePattern) (target : τ) (hmem : .pattern method shape target ∈ registered) :
      ∃ g ∈ table.patterns, sameRouteShape g.1 shape = true := by
    have hr : ⟨shape, method, ⟨target, shape⟩⟩ ∈ registered.filterMap patternEntry := mem_patternEntries.mpr ⟨rfl, hmem⟩
    exact h.patterns.complete _ hr
  cases hb : RouteTable.best segments table.patterns with
  | none =>
    rw [hb] at hspec
    intro method shape target hmem
    obtain ⟨g, hg, hs⟩ := hgroup method shape target hmem
    rw [← matches_congr hs]
    exact hspec g hg
  | some best =>
    rw [hb] at hspec
    obtain ⟨⟨key, name, entry⟩, hr, hk⟩ := h.patterns.sound best hspec.mem
    obtain ⟨-, hmem⟩ := mem_patternEntries.mp hr
    obtain rfl : key = best.1 := hk
    refine ⟨hspec.mem, ⟨_, _, hmem⟩, hspec.admits, fun method other target hother hm => ?_⟩
    obtain ⟨g, hg, hs⟩ := hgroup method other target hother
    rcases hspec.first g hg (by rw [matches_congr hs, hm]) with rfl | hfirst
    · exact .inl hs
    · exact .inr (hfirst.congr (sameRouteShape_equivalence.refl _) hs)

lemma TableHolds.find_selects (h : TableHolds registered table) (path : Bytes) : Selects registered path (table.find path) := by
  rw [RouteTable.find]
  cases he : table.exact.find? (·.1 == path) with
  | some group =>
    have hg := List.mem_of_find?_eq_some he
    obtain rfl : group.1 = path := by simpa using List.find?_some he
    obtain ⟨⟨key, name, entry⟩, hr, hk⟩ := h.exact.sound group hg
    obtain rfl : key = group.1 := hk
    refine .exact _ ⟨_, _, (mem_exactEntries.mp hr).2⟩ (h.exact.sorted group hg).nodup fun method entry => ?_
    rw [h.exact.mem_iff hg]
    constructor
    · rintro ⟨⟨key, name, value⟩, hmem, hkey, rfl, rfl⟩
      obtain rfl : group.1 = key := by simpa using hkey
      exact mem_exactEntries.mp hmem
    · intro hmem
      exact ⟨_, mem_exactEntries.mpr hmem, by simp, rfl, rfl⟩
  | none =>
    have hexact : ¬ HasExact registered path := by
      rintro ⟨method, target, hmem⟩
      have hr : ⟨path, method, ⟨target, []⟩⟩ ∈ registered.filterMap exactEntry := mem_exactEntries.mpr ⟨rfl, hmem⟩
      obtain ⟨g, hg, hs⟩ := h.exact.complete _ hr
      exact List.find?_eq_none.mp he g hg hs
    simp only
    split_ifs with hempty
    · refine .missing _ hexact (fun segments hd method shape target hmem => ?_) rfl
      rcases Bool.or_eq_true_iff.mp hempty with hnil | hstar
      · have hr : ⟨shape, method, ⟨target, shape⟩⟩ ∈ registered.filterMap patternEntry := mem_patternEntries.mpr ⟨rfl, hmem⟩
        obtain ⟨g, hg, -⟩ := h.patterns.complete _ hr
        rw [List.isEmpty_iff.mp hnil] at hg
        cases hg
      · obtain rfl : path = ascii "*" := by simpa using hstar
        cases hd
    · cases hd : decodeRoutePath path with
      | none => exact .missing _ hexact (fun segments hd' => by simp [hd] at hd') rfl
      | some segments =>
        have hbest := h.best segments
        simp only
        cases hb : RouteTable.best segments table.patterns with
        | none =>
          rw [hb] at hbest
          refine .missing _ hexact (fun segments' hd' => ?_) rfl
          obtain rfl := Option.some.inj (hd.symm.trans hd')
          exact hbest
        | some best =>
          rw [hb] at hbest
          obtain ⟨hmem, hfore⟩ := hbest
          refine .pattern _ best.1 _ hexact hd hfore (fun other hother => hfore.unique hother)
            (h.patterns.sorted best hmem).nodup fun method entry => ?_
          rw [h.patterns.mem_iff hmem]
          constructor
          · rintro ⟨⟨key, name, value⟩, hr, hkey, rfl, rfl⟩
            obtain ⟨hp, hq⟩ := mem_patternEntries.mp hr
            obtain rfl : value.pattern = key := hp
            exact ⟨hkey, hq⟩
          · rintro ⟨hs, hr⟩
            exact ⟨_, mem_patternEntries.mpr ⟨rfl, hr⟩, hs, rfl, rfl⟩

lemma TableHolds.find_perm (h : TableHolds registered table) (h' : TableHolds registered' table')
    (hp : registered.Perm registered') (path : Bytes) : table.find path = table'.find path := by
  have hexact := h.exact.find_perm h'.exact equality_equivalence (hp.filterMap _) path
  have hempty : table.patterns.isEmpty = table'.patterns.isEmpty := by
    rw [Bool.eq_iff_iff, List.isEmpty_iff, List.isEmpty_iff, h.patterns.groups_nil_iff, h'.patterns.groups_nil_iff]
    exact ⟨fun hn => ((hp.filterMap _).symm.trans (hn ▸ .refl _)).eq_nil, fun hn => ((hp.filterMap _).trans (hn ▸ .refl _)).eq_nil⟩
  have hpattern (segments : List Bytes) : (RouteTable.best segments table.patterns).map Prod.snd =
      (RouteTable.best segments table'.patterns).map Prod.snd := by
    have hbest := h.best segments
    have hbest' := h'.best segments
    cases hb : RouteTable.best segments table.patterns with
    | none =>
      rw [hb] at hbest
      cases hb' : RouteTable.best segments table'.patterns with
      | none => rfl
      | some best' =>
        rw [hb'] at hbest'
        obtain ⟨method, target, hmem⟩ := hbest'.2.mem
        have := hbest method best'.1 target (hp.mem_iff.mpr hmem)
        simp [hbest'.2.admits] at this
    | some best =>
      rw [hb] at hbest
      cases hb' : RouteTable.best segments table'.patterns with
      | none =>
        rw [hb'] at hbest'
        obtain ⟨method, target, hmem⟩ := hbest.2.mem
        have := hbest' method best.1 target (hp.mem_iff.mp hmem)
        simp [hbest.2.admits] at this
      | some best' =>
        rw [hb'] at hbest'
        have hs := (hbest.2.perm hp).unique hbest'.2
        exact congrArg some (h.patterns.group_unique h'.patterns sameRouteShape_equivalence (hp.filterMap _) hbest.1 hbest'.1 hs)
  rw [RouteTable.find, RouteTable.find]
  cases he : table.exact.find? (·.1 == path) with
  | some group =>
    cases he' : table'.exact.find? (·.1 == path) with
    | none => simp [he, he'] at hexact
    | some group' =>
      obtain hg : group.2 = group'.2 := by simpa [he, he'] using hexact
      simp only [hg]
  | none =>
    cases he' : table'.exact.find? (·.1 == path) with
    | some group' => simp [he, he'] at hexact
    | none =>
      simp only [hempty]
      split_ifs
      · rfl
      · cases decodeRoutePath path with
        | none => rfl
        | some segments => simp only [hpattern segments]

/-- Whatever the order of registrations that repeat none, all succeed and a path selects one and the same group;
a registration that repeats an earlier one fails and changes nothing. -/
theorem selection_order_free :
    (∀ registrations : List (Registration τ), registrations.Pairwise (fun r r' => ¬ r.Repeats r') →
      ∃ table : RouteTable (Methods τ),
        RouteTable.empty.registerAll registrations = (List.replicate registrations.length .ok, table) ∧
        (∀ path, Selects registrations path (table.find path)) ∧
        ∀ order, order.Perm registrations → ∃ table' : RouteTable (Methods τ),
          RouteTable.empty.registerAll order = (List.replicate registrations.length .ok, table') ∧
          ∀ path, table'.find path = table.find path ∧ ∀ method, table'.serve path method = table.serve path method) ∧
    ∀ (history : List (Registration τ)) (r : Registration τ), (∃ q ∈ history, q.Repeats r) →
      (RouteTable.empty.registerAll history).2.register r = (.alreadyExists, (RouteTable.empty.registerAll history).2) := by
  refine ⟨fun registrations hd => ?_, ?_⟩
  · obtain ⟨table, hall, hholds⟩ := @TableHolds.registerAll _ _ _ registrations tableHolds_empty hd
    refine ⟨table, hall, hholds.find_selects, fun order hp => ?_⟩
    have hd' : order.Pairwise fun r r' => ¬ r.Repeats r' := by
      apply (hp.pairwise_iff ?_).mpr hd
      exact fun hr hr' => hr hr'.symm
    obtain ⟨table', hall', hholds'⟩ := @TableHolds.registerAll _ _ _ order tableHolds_empty hd'
    have hfind (path : Bytes) : table'.find path = table.find path := hholds'.find_perm hholds hp path
    refine ⟨table', by rw [hall', hp.length_eq], fun path => ⟨hfind path, fun method => ?_⟩⟩
    simp only [RouteTable.serve, hfind path]
  · rintro history r ⟨q, hq, hr⟩
    obtain ⟨accepted, hholds, -, hrepeated⟩ := @TableHolds.history _ _ _ history tableHolds_empty
    obtain ⟨p, hp, hpq⟩ := hrepeated q hq
    rcases hholds.register r with ⟨-, hregister⟩ | ⟨hfresh, -⟩
    · exact hregister
    · exact (hfresh p hp (hpq.trans hr)).elim

theorem plugin_routes_in_both_orders :
    ∃ table table' : RouteTable (Methods ℕ),
      RouteTable.empty.registerAll [.pattern [71] [⟨[112], false⟩, ⟨[105], true⟩] 1, .pattern [71] [⟨[112], false⟩, ⟨[120], false⟩] 2] =
        ([.ok, .ok], table) ∧
      RouteTable.empty.registerAll [.pattern [71] [⟨[112], false⟩, ⟨[120], false⟩] 2, .pattern [71] [⟨[112], false⟩, ⟨[105], true⟩] 1] =
        ([.ok, .ok], table') ∧
      (∀ path, table'.find path = table.find path) ∧ table.serve [47, 112, 47, 120] [71] = some (2, []) ∧
      table.serve [47, 112, 47, 121] [71] = some (1, [([105], [121])]) ∧
      (table.register (.pattern [71] [⟨[112], false⟩, ⟨[106], true⟩] 3)).1 = .alreadyExists := by
  obtain ⟨hsets, hrepeat⟩ := selection_order_free (τ := ℕ)
  obtain ⟨table, hall, -, horders⟩ := hsets
    [.pattern [71] [⟨[112], false⟩, ⟨[105], true⟩] 1, .pattern [71] [⟨[112], false⟩, ⟨[120], false⟩] 2]
    (List.pairwise_pair.mpr fun h => absurd h.2 (by decide))
  obtain ⟨table', hall', hfind⟩ := horders _ (.swap _ _ _)
  obtain rfl : _ = table := congrArg Prod.snd hall
  refine ⟨_, table', hall, hall', fun path => (hfind path).1, by decide +kernel, by decide +kernel, ?_⟩
  have hagain := hrepeat [.pattern [71] [⟨[112], false⟩, ⟨[105], true⟩] 1, .pattern [71] [⟨[112], false⟩, ⟨[120], false⟩] 2]
    (.pattern [71] [⟨[112], false⟩, ⟨[106], true⟩] 3) ⟨_, List.mem_cons_self, rfl, by decide⟩
  exact congrArg Prod.fst hagain

end Selecting

end ServerCore.Web
