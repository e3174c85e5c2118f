import ServerCore.Web.ForwardedJunction

/-! What a client writes into the forwarding headers does not move the peer that trusted proxies
behind it vouch for. -/

namespace ServerCore.Web

open ServerCore.Core

section Grammar

def Blank (w : Bytes) : Prop := ∀ b ∈ w, isBlank b = true

def isNodeByte (b : Byte) : Bool := isDigit b || (97 ≤ lower b && lower b ≤ 122) || (ascii ".:[]_-").contains b

def ValueText (x : Bytes) : Prop :=
  isToken x = true ∨ ∃ q, x = 34 :: q ++ [34] ∧ q ≠ [] ∧ ∀ b ∈ q, isNodeByte b = true

def PairText (x : Bytes) : Prop :=
  ∃ name w w' value, x = name ++ w ++ 61 :: w' ++ value ∧ isToken name = true ∧ Blank w ∧ Blank w' ∧ ValueText value

inductive HopText : Bytes → Prop
  | pair {x} : PairText x → HopText x
  | cons {x w w' y} : PairText x → Blank w → Blank w' → HopText y → HopText (x ++ w ++ 59 :: w' ++ y)

inductive HopsText : Bytes → Prop
  | hop {x} : HopText x → HopsText x
  | cons {x w w' y} : HopText x → Blank w → Blank w' → HopsText y → HopsText (x ++ w ++ 44 :: w' ++ y)

def Safe (x : Bytes) : Prop :=
  92 ∉ x ∧ ∀ u v, x = u ++ 34 :: v → 34 ∉ u → ∃ c v', v = c :: v' ∧ endsToken c = false

lemma Safe.guarded {x : Bytes} (h : Safe x) : Guarded x := by
  intro u v huv hq
  refine ⟨fun hb => h.1 ?_, h.2 u v huv hq⟩
  rw [huv]
  exact List.mem_append_left _ hb

lemma Safe.append {x y : Bytes} (hx : Safe x) (hy : Safe y) : Safe (x ++ y) := by
  refine ⟨by simp [hx.1, hy.1], fun u v huv hq => ?_⟩
  rcases List.append_eq_append_iff.mp huv with ⟨z, rfl, hz⟩ | ⟨z, hz, hv⟩
  · exact hy.2 z v hz (by simp_all)
  · cases z with
    | nil =>
      rw [List.append_nil] at hz
      exact hy.2 [] v (by simpa using hv.symm) (by simp)
    | cons c z =>
      obtain ⟨rfl, rfl⟩ := List.cons.inj hv
      obtain ⟨c, v', rfl, hc⟩ := hx.2 u z hz hq
      exact ⟨c, v' ++ y, rfl, hc⟩

lemma Safe.plain {x : Bytes} (hb : 92 ∉ x) (hq : 34 ∉ x) : Safe x := by
  refine ⟨hb, fun u v huv => ?_⟩
  rw [huv] at hq
  simp at hq

lemma Safe.byte {c : Byte} (hb : c ≠ 92) (hq : c ≠ 34) : Safe [c] :=
  .plain (by simpa using hb.symm) (by simpa using hq.symm)

lemma Safe.blank {w : Bytes} (h : Blank w) : Safe w := by
  apply Safe.plain
  · intro hmem
    exact absurd (h _ hmem) (by decide)
  · intro hmem
    exact absurd (h _ hmem) (by decide)

lemma Safe.token {x : Bytes} (h : isToken x = true) : Safe x := by
  have hbytes := (isToken_iff.mp h).2
  apply Safe.plain
  · intro hmem
    exact absurd (hbytes _ hmem) (by decide)
  · intro hmem
    exact absurd (hbytes _ hmem) (by decide)

lemma isNodeByte_bound {b : Byte} (h : isNodeByte b = true) : b ≠ 92 ∧ endsToken b = false := by
  constructor
  · rintro rfl
    exact absurd h (by decide)
  · rw [Bool.eq_false_iff]
    intro hend
    simp only [endsToken, Bool.or_eq_true, decide_eq_true_eq] at hend
    rcases hend with ((rfl | rfl) | rfl) | rfl <;> exact absurd h (by decide)

lemma Safe.value {x : Bytes} (h : ValueText x) : Safe x := by
  rcases h with htoken | ⟨q, rfl, hne, hq⟩
  · exact .token htoken
  · refine ⟨?_, fun u v huv hu => ?_⟩
    · simp only [List.cons_append, List.mem_cons, List.mem_append, List.not_mem_nil, or_false]
      rintro (h | h | h)
      · cases h
      · exact (isNodeByte_bound (hq _ h)).1 rfl
      · cases h
    · cases u with
      | nil =>
        obtain ⟨-, rfl⟩ := List.cons.inj huv
        obtain ⟨c, q, rfl⟩ := List.exists_cons_of_ne_nil hne
        exact ⟨c, q ++ [34], rfl, (isNodeByte_bound (hq c (by simp))).2⟩
      | cons c u =>
        obtain ⟨rfl, -⟩ := List.cons.inj huv
        simp at hu

lemma closed_of_forall {x : Bytes} (hne : x ≠ []) (h : ∀ b ∈ x, isBlank b = false) : Closed x :=
  ⟨x.getLast hne, List.getLast?_eq_some_getLast hne, h _ (List.getLast_mem hne)⟩

lemma Closed.token {x : Bytes} (h : isToken x = true) : Closed x := by
  obtain ⟨hne, hbytes⟩ := isToken_iff.mp h
  refine closed_of_forall hne fun b hb => ?_
  rw [Bool.eq_false_iff]
  intro hblank
  simp only [isBlank, Bool.or_eq_true, beq_iff_eq] at hblank
  rcases hblank with rfl | rfl <;> exact absurd (hbytes _ hb) (by decide)

lemma Closed.value {x : Bytes} (h : ValueText x) : Closed x := by
  rcases h with htoken | ⟨q, rfl, -, -⟩
  · exact .token htoken
  · have hquote : Closed [34] := ⟨34, rfl, rfl⟩
    exact hquote.append (34 :: q)

lemma PairText.safe {x : Bytes} (h : PairText x) : Safe x ∧ Closed x := by
  obtain ⟨name, w, w', value, rfl, hname, hw, hw', hvalue⟩ := h
  have hequal : Safe ([61] ++ w') := (Safe.byte (by decide) (by decide)).append (.blank hw')
  refine ⟨(((Safe.token hname).append (.blank hw)).append hequal).append (.value hvalue), ?_⟩
  exact (Closed.value hvalue).append _

lemma separated_safe {x w w' y : Bytes} {c : Byte} (hx : Safe x) (hw : Blank w) (hw' : Blank w') (hb : c ≠ 92)
    (hq : c ≠ 34) (hy : Safe y) : Safe (x ++ w ++ c :: w' ++ y) :=
  ((hx.append (.blank hw)).append ((Safe.byte hb hq).append (.blank hw'))).append hy

lemma HopText.safe {x : Bytes} (h : HopText x) : Safe x ∧ Closed x := by
  induction h with
  | pair hx => exact hx.safe
  | cons hx hw hw' hy ih =>
    exact ⟨separated_safe hx.safe.1 hw hw' (by decide) (by decide) ih.1, ih.2.append _⟩

lemma HopsText.safe {x : Bytes} (h : HopsText x) : Safe x ∧ Closed x := by
  induction h with
  | hop hx => exact hx.safe
  | cons hx hw hw' hy ih =>
    exact ⟨separated_safe hx.safe.1 hw hw' (by decide) (by decide) ih.1, ih.2.append _⟩

end Grammar

def EndsWith (text suffix : Bytes) : Prop := text = suffix ∨ ∃ attacker, text = attacker ++ 44 :: suffix

lemma parseForwarded_endsWith {w x w' text : Bytes} (hw : Blank w) (hx : HopsText x) (hw' : Blank w')
    (h : EndsWith text (w ++ x ++ w')) {n : ℕ} {hops : List Hop} (hp : parseForwarded n text = .ok hops) :
    ∃ front tail, hops = front ++ tail ∧ parseForwarded n (w ++ x ++ w') = .ok tail := by
  obtain ⟨hsafe, hclosed⟩ := hx.safe
  have hclosed' := hclosed.append w
  have hguarded := ((Safe.blank hw).append hsafe).guarded
  have hne := hclosed'.ne_nil
  rcases h with rfl | ⟨attacker, rfl⟩
  · exact ⟨[], hops, rfl, hp⟩
  · rw [← List.cons_append, ← List.append_assoc,
      parseForwarded_trim (y := attacker ++ 44 :: (w ++ x)) (by simp) (by simp)
        (trim_behind ((hclosed'.cons 44).append attacker) hw')] at hp
    obtain ⟨front, tail, rfl, htail⟩ := parseForwarded_junction hclosed' hguarded hp
    refine ⟨front, tail, rfl, ?_⟩
    rwa [parseForwarded_trim (y := w ++ x) (by simp_all) hne (trim_behind hclosed' hw')]

section Lists

lemma listLoop_mono {m n : ℕ} (hmn : m ≤ n) {text : Bytes} {list : List Bytes} (h : listLoop m text = .ok list) :
    listLoop n text = .ok list := by
  induction m generalizing n text list with
  | zero =>
    unfold listLoop at h
    simp only at h
    split_ifs at h
  | succ m ih =>
    obtain ⟨k, rfl⟩ : ∃ k, n = k + 1 := ⟨n - 1, by omega⟩
    unfold listLoop at h ⊢
    simp only at h ⊢
    split_ifs at h ⊢ with hpart
    cases hcomma : text.findIdx? (· = 44) with
    | none =>
      simp only [hcomma] at h ⊢
      exact h
    | some comma =>
      simp only [hcomma] at h ⊢
      cases hrest : listLoop m (text.drop (comma + 1)) with
      | error code => simp [hrest, bind, Except.bind] at h
      | ok rest =>
        rw [ih (by omega) hrest]
        rw [hrest] at h
        exact h

lemma findComma (a suffix : Bytes) :
    (a ++ 44 :: suffix).findIdx? (· = 44) = some a.length ∨
      ∃ u a', a = u ++ 44 :: a' ∧ (a ++ 44 :: suffix).findIdx? (· = 44) = some u.length := by
  by_cases hmem : (44 : Byte) ∈ a
  · obtain ⟨u, a', rfl, hu⟩ := List.eq_append_cons_of_mem hmem
    refine .inr ⟨u, a', rfl, ?_⟩
    rw [List.append_assoc, List.findIdx?_append, List.findIdx?_eq_none_iff.mpr]
    · simp [List.findIdx?_cons]
    · rintro b hb
      exact decide_eq_false (by rintro rfl; exact hu hb)
  · refine .inl ?_
    rw [List.findIdx?_append, List.findIdx?_eq_none_iff.mpr]
    · simp [List.findIdx?_cons]
    · rintro b hb
      exact decide_eq_false (by rintro rfl; exact hmem hb)

lemma listLoop_junction {n : ℕ} {a suffix : Bytes} {list : List Bytes} (h : listLoop n (a ++ 44 :: suffix) = .ok list) :
    ∃ front tail, list = front ++ tail ∧ listLoop n suffix = .ok tail := by
  induction n generalizing a list with
  | zero =>
    unfold listLoop at h
    simp only at h
    split_ifs at h
  | succ n ih =>
    unfold listLoop at h
    simp only at h
    split_ifs at h with hpart
    rcases findComma a suffix with hcomma | ⟨u, a', rfl, hcomma⟩
    · simp only [hcomma] at h
      have hdrop : (a ++ 44 :: suffix).drop (a.length + 1) = suffix := by simp
      rw [hdrop] at h
      cases hrest : listLoop n suffix with
      | error code => simp [hrest, bind, Except.bind] at h
      | ok tail =>
        rw [hrest] at h
        obtain rfl := Except.ok.inj h
        exact ⟨[_], tail, rfl, listLoop_mono (Nat.le_succ n) hrest⟩
    · simp only [hcomma] at h
      have hdrop : (u ++ 44 :: a' ++ 44 :: suffix).drop (u.length + 1) = a' ++ 44 :: suffix := by simp
      rw [hdrop] at h
      cases hrest : listLoop n (a' ++ 44 :: suffix) with
      | error code => simp [hrest, bind, Except.bind] at h
      | ok rest =>
        rw [hrest] at h
        obtain rfl := Except.ok.inj h
        obtain ⟨front, tail, rfl, htail⟩ := ih hrest
        exact ⟨_ :: front, tail, rfl, listLoop_mono (Nat.le_succ n) htail⟩

lemma listLoop_nil (n : ℕ) : listLoop n [] = .error .invalidFormat := by
  unfold listLoop
  rfl

lemma forwardedList_endsWith {text suffix : Bytes} (h : EndsWith text suffix) {n : ℕ} {list : List Bytes}
    (hl : forwardedList text n = .ok list) : ∃ front tail, list = front ++ tail ∧ forwardedList suffix n = .ok tail := by
  rcases h with rfl | ⟨attacker, rfl⟩
  · exact ⟨[], list, rfl, hl⟩
  · rw [forwardedList, if_neg (by simp)] at hl
    obtain ⟨front, tail, rfl, htail⟩ := listLoop_junction hl
    refine ⟨front, tail, rfl, ?_⟩
    rw [forwardedList, if_neg, htail]
    rintro rfl
    rw [listLoop_nil] at htail
    cases htail

lemma aligned_reverse {count : ℕ} {values : List Bytes} {k : ℕ} (hk : k < count) :
    TrustedProxyOptions.aligned count values (count - 1 - k) = (values.reverse[k]?).getD [] := by
  rw [TrustedProxyOptions.aligned]
  split_ifs with h
  · rw [List.getElem?_eq_none (by simp; omega)]
    rfl
  · rw [List.getElem?_reverse (by omega)]
    congr 2
    omega

lemma alignedHops_reverse (nodes protocols hosts : List Bytes) (k : ℕ) :
    (TrustedProxyOptions.alignedHops nodes protocols hosts).reverse[k]? =
      nodes.reverse[k]?.map fun node => ⟨node, (protocols.reverse[k]?).getD [], (hosts.reverse[k]?).getD []⟩ := by
  by_cases hk : k < nodes.length
  · rw [TrustedProxyOptions.alignedHops, List.getElem?_reverse (by simpa using hk), List.getElem?_reverse hk,
      List.length_mapIdx, List.getElem?_mapIdx, aligned_reverse hk, aligned_reverse hk]
  · have hnone : nodes.reverse[k]? = none := List.getElem?_eq_none (by simpa using hk)
    rw [List.getElem?_eq_none (by simpa [TrustedProxyOptions.alignedHops] using hk), hnone, Option.map_none]

end Lists

namespace TrustedProxyOptions

variable (options : TrustedProxyOptions)

/-- The walk over nodes, the nearest first, that ends at an obfuscated or untrusted one after
accepting so many of them. -/
inductive Stops : List Bytes → ℕ → Prop
  | obfuscated {text texts} : node text (options.mode = .forwarded) = some none → Stops (text :: texts) 0
  | untrusted {text texts endpoint} : node text (options.mode = .forwarded) = some (some endpoint) →
      options.trusted endpoint.address = false → Stops (text :: texts) 1
  | trusted {text texts endpoint k} : node text (options.mode = .forwarded) = some (some endpoint) →
      options.trusted endpoint.address = true → Stops texts k → Stops (text :: texts) (k + 1)

variable {options}

lemma Stops.le_length {nodes : List Bytes} {k : ℕ} (h : options.Stops nodes k) : k ≤ nodes.length := by
  induction h with
  | obfuscated => exact Nat.zero_le _
  | untrusted => simp
  | trusted _ _ _ ih => simpa using ih

lemma cons_of_nodes {text : Bytes} {texts : List Bytes} {hops : List Hop}
    (h : text :: texts <+: hops.map Hop.node) :
    ∃ hop rest, hops = hop :: rest ∧ hop.node = text ∧ texts <+: rest.map Hop.node := by
  cases hops with
  | nil => simp at h
  | cons hop rest =>
    rw [List.map_cons, List.cons_prefix_cons] at h
    exact ⟨hop, rest, rfl, h.1.symm, h.2⟩

lemma walk_untrusted {result : ProxyPeer} (h : options.trusted result.client.address = false) (hops : List Hop) :
    options.walk result hops = .ok result := by
  cases hops with
  | nil => rfl
  | cons hop hops =>
    rw [walk, h]
    rfl

lemma acceptHop_client {result next : ProxyPeer} {hop : Hop} {endpoint : IpEndpoint}
    (hnode : node hop.node (options.mode = .forwarded) = some (some endpoint))
    (h : options.acceptHop result hop = .ok (some next)) : next.client = endpoint := by
  simp only [acceptHop, hnode] at h
  split_ifs at h <;>
    · obtain rfl := Option.some.inj (Except.ok.inj h)
      rfl

lemma walk_congr {nodes : List Bytes} {k : ℕ} (h : options.Stops nodes k) {hops hops' : List Hop}
    (hnodes : nodes <+: hops.map Hop.node) (hnodes' : nodes <+: hops'.map Hop.node)
    (hsame : ∀ i < k, hops[i]? = hops'[i]?) {result : ProxyPeer}
    (hresult : options.trusted result.client.address = true) : options.walk result hops = options.walk result hops' := by
  induction h generalizing hops hops' result with
  | @obfuscated text texts hnode =>
    obtain ⟨hop, rest, rfl, hhop, -⟩ := cons_of_nodes hnodes
    obtain ⟨hop', rest', rfl, hhop', -⟩ := cons_of_nodes hnodes'
    simp only [walk, hresult, acceptHop, hhop, hhop', hnode]
  | @untrusted text texts endpoint hnode hun =>
    obtain ⟨hop, rest, rfl, hhop, -⟩ := cons_of_nodes hnodes
    obtain ⟨hop', rest', rfl, -, -⟩ := cons_of_nodes hnodes'
    obtain rfl : hop = hop' := by simpa using hsame 0 (by omega)
    simp only [walk]
    cases haccept : options.acceptHop result hop with
    | error code => rfl
    | ok next =>
      cases next with
      | none => rfl
      | some next =>
        have hclient : options.trusted next.client.address = false := by
          rw [acceptHop_client (hhop ▸ hnode) haccept, hun]
        simp only [walk_untrusted hclient]
  | @trusted text texts endpoint k hnode htrusted hstops ih =>
    obtain ⟨hop, rest, rfl, hhop, hrest⟩ := cons_of_nodes hnodes
    obtain ⟨hop', rest', rfl, -, hrest'⟩ := cons_of_nodes hnodes'
    obtain rfl : hop = hop' := by simpa using hsame 0 (by omega)
    have hsame' : ∀ i < k, rest[i]? = rest'[i]? := by
      intro i hi
      simpa using hsame (i + 1) (by omega)
    simp only [walk]
    cases haccept : options.acceptHop result hop with
    | error code => rfl
    | ok next =>
      cases next with
      | none => rfl
      | some next =>
        have hclient : options.trusted next.client.address = true := by
          rw [acceptHop_client (hhop ▸ hnode) haccept, htrusted]
        simp only [ih hrest hrest' hsame' hclient]

variable (options)

def headerText (d : Destination) (headers : HttpHeaders) : Bytes :=
  ((headers.filter fun header => options.destination header.1 = some d).map Prod.snd).foldl appendValue []

def Collected.text (c : Collected) : Destination → Bytes
  | .forwarded => c.forwarded
  | .xff => c.xff
  | .proto => c.proto
  | .host => c.host

variable {options}

lemma append_text (c : Collected) (value : Bytes) (bytes : ℕ) (d d' : Destination) :
    Collected.text { c.append value d with bytes := bytes } d' =
      if d = d' then appendValue (c.text d') value else c.text d' := by
  cases d <;> cases d' <;> rfl

lemma collect_text {headers : HttpHeaders} {c c' : Collected} (h : options.collect c headers = .ok c')
    (d : Destination) : c'.text d =
      ((headers.filter fun header => options.destination header.1 = some d).map Prod.snd).foldl appendValue (c.text d) := by
  induction headers generalizing c with
  | nil =>
    obtain rfl := Except.ok.inj h
    rfl
  | cons header headers ih =>
    obtain ⟨name, value⟩ := header
    rw [collect] at h
    cases hd : options.destination name with
    | none =>
      simp only [hd] at h
      rw [ih h, List.filter_cons_of_neg (by simp [hd])]
    | some d' =>
      simp only [hd] at h
      split_ifs at h
      rw [ih h, append_text]
      split_ifs with heq
      · rw [List.filter_cons_of_pos (by simp [hd, heq]), List.map_cons, List.foldl_cons]
      · rw [List.filter_cons_of_neg (by simpa [hd] using heq)]

lemma resolve_trusted {peer : IpEndpoint} (hpeer : options.trusted peer.address = true) {headers : HttpHeaders}
    {p : ProxyPeer} (h : options.resolve peer headers = .ok p) :
    ∃ c hops, (∀ d, c.text d = options.headerText d headers) ∧ options.hops c = .ok hops ∧
      options.walk ⟨peer, peer, 0, [], []⟩ hops.reverse = .ok p := by
  simp only [resolve, hpeer, Bool.not_true, Bool.false_eq_true, ↓reduceIte] at h
  split_ifs at h
  cases hcollect : options.collect ⟨[], [], [], [], 0⟩ headers with
  | error code => simp [hcollect, bind, Except.bind] at h
  | ok c =>
    cases hhops : options.hops c with
    | error code => simp [hcollect, hhops, bind, Except.bind] at h
    | ok hops =>
      simp only [hcollect, hhops, bind, Except.bind] at h
      refine ⟨c, hops, fun d => ?_, hhops, h⟩
      rw [collect_text hcollect d, headerText]
      cases d <;> rfl

lemma reverse_getElem_tail {α : Type} {front front' tail : List α} {i : ℕ} (hi : i < tail.length) :
    (front ++ tail).reverse[i]? = (front' ++ tail).reverse[i]? := by
  rw [List.reverse_append, List.reverse_append, List.getElem?_append_left (by simpa using hi),
    List.getElem?_append_left (by simpa using hi)]

lemma prefix_of_endsWith {front tail : List Hop} :
    tail.reverse.map Hop.node <+: (front ++ tail).reverse.map Hop.node := by
  rw [List.reverse_append, List.map_append]
  exact List.prefix_append _ _

lemma forwarded_resolves_alike {peer : IpEndpoint} (hmode : options.mode = .forwarded)
    (hpeer : options.trusted peer.address = true) {w x w' : Bytes} (hw : Blank w) (hx : HopsText x) (hw' : Blank w')
    (hstops : ∀ hops, parseForwarded options.maxHops (w ++ x ++ w') = .ok hops →
      ∃ k, options.Stops (hops.reverse.map Hop.node) k)
    {headers headers' : HttpHeaders} (hends : EndsWith (options.headerText .forwarded headers) (w ++ x ++ w'))
    (hends' : EndsWith (options.headerText .forwarded headers') (w ++ x ++ w')) {p p' : ProxyPeer}
    (h : options.resolve peer headers = .ok p) (h' : options.resolve peer headers' = .ok p') : p = p' := by
  obtain ⟨c, hops, htext, hhops, hwalk⟩ := resolve_trusted hpeer h
  obtain ⟨c', hops', htext', hhops', hwalk'⟩ := resolve_trusted hpeer h'
  simp only [TrustedProxyOptions.hops, hmode] at hhops hhops'
  rw [← htext] at hends
  rw [← htext'] at hends'
  obtain ⟨front, tail, rfl, htail⟩ := parseForwarded_endsWith hw hx hw' hends hhops
  obtain ⟨front', tail', rfl, htail'⟩ := parseForwarded_endsWith hw hx hw' hends' hhops'
  obtain rfl : tail = tail' := Except.ok.inj (htail.symm.trans htail')
  obtain ⟨k, hk⟩ := hstops tail htail
  have hsame : ∀ i < k, (front ++ tail).reverse[i]? = (front' ++ tail).reverse[i]? := by
    intro i hi
    have hlen := hk.le_length
    rw [List.length_map] at hlen
    exact reverse_getElem_tail (by rw [List.length_reverse] at hlen; omega)
  have hcongr := @walk_congr options _ k hk _ _ prefix_of_endsWith prefix_of_endsWith hsame ⟨peer, peer, 0, [], []⟩ hpeer
  rw [hwalk, hwalk'] at hcongr
  exact Except.ok.inj hcongr

lemma alignedHops_nodes (nodes protocols hosts : List Bytes) :
    (alignedHops nodes protocols hosts).map Hop.node = nodes := by
  apply List.ext_getElem?
  intro i
  rw [List.getElem?_map, alignedHops, List.getElem?_mapIdx, Option.map_map]
  exact Option.map_id' ..

lemma destination_accepted {name : Bytes} (h : options.destination name = some .proto) : options.acceptProto = true := by
  simp only [destination] at h
  split_ifs at h <;> simp_all

lemma destination_accepted_host {name : Bytes} (h : options.destination name = some .host) :
    options.acceptHost = true := by
  simp only [destination] at h
  split_ifs at h <;> simp_all

lemma headerText_ignored {d : Destination} (h : ∀ name, options.destination name ≠ some d) (headers : HttpHeaders) :
    options.headerText d headers = [] := by
  have hfilter : (headers.filter fun header => options.destination header.1 = some d) = [] := by
    rw [List.filter_eq_nil_iff]
    intro header hheader
    simpa using h header.1
  rw [headerText, hfilter]
  rfl

lemma list_alike {text text' values : Bytes} (h : EndsWith text values) (h' : EndsWith text' values) {n k : ℕ}
    (hk : ∀ list, forwardedList values n = .ok list → k ≤ list.length) {list list' : List Bytes}
    (hl : forwardedList text n = .ok list) (hl' : forwardedList text' n = .ok list') :
    ∀ i < k, list.reverse[i]? = list'.reverse[i]? := by
  intro i hi
  obtain ⟨front, tail, rfl, htail⟩ := forwardedList_endsWith h hl
  obtain ⟨front', tail', rfl, htail'⟩ := forwardedList_endsWith h' hl'
  obtain rfl : tail = tail' := Except.ok.inj (htail.symm.trans htail')
  have := hk tail htail
  exact reverse_getElem_tail (by omega)

/-- The texts that a request's headers make up where they end as the proxies wrote them. -/
structure EndsAs (options : TrustedProxyOptions) (nodes protos hosts : Bytes) (headers : HttpHeaders) : Prop where
  nodes : EndsWith (options.headerText .xff headers) nodes
  protos : options.acceptProto = true → EndsWith (options.headerText .proto headers) protos
  hosts : options.acceptHost = true → EndsWith (options.headerText .host headers) hosts

lemma hops_xForwarded (hmode : options.mode = .xForwarded) {c : Collected} {hops : List Hop}
    (h : options.hops c = .ok hops) :
    ∃ nodes protocols hosts, forwardedList c.xff options.maxHops = .ok nodes ∧
      forwardedList c.proto options.maxHops = .ok protocols ∧ forwardedList c.host options.maxHops = .ok hosts ∧
      hops = alignedHops nodes protocols hosts := by
  simp only [TrustedProxyOptions.hops, hmode] at h
  cases hn : forwardedList c.xff options.maxHops with
  | error code => simp [hn, bind, Except.bind] at h
  | ok nodes =>
    cases hp : forwardedList c.proto options.maxHops with
    | error code => simp [hn, hp, bind, Except.bind] at h
    | ok protocols =>
      cases hh : forwardedList c.host options.maxHops with
      | error code => simp [hn, hp, hh, bind, Except.bind] at h
      | ok hosts =>
        simp only [hn, hp, hh, bind, Except.bind, Except.ok.injEq] at h
        exact ⟨nodes, protocols, hosts, rfl, rfl, rfl, h.symm⟩

lemma values_alike {d : Destination} {accept : Bool} (hd : ∀ name, options.destination name = some d → accept = true)
    {values : Bytes} {k : ℕ} (hvalues : accept = true → ∀ list, forwardedList values options.maxHops = .ok list →
      k ≤ list.length) {headers headers' : HttpHeaders}
    (hends : accept = true → EndsWith (options.headerText d headers) values)
    (hends' : accept = true → EndsWith (options.headerText d headers') values) {list list' : List Bytes}
    (hl : forwardedList (options.headerText d headers) options.maxHops = .ok list)
    (hl' : forwardedList (options.headerText d headers') options.maxHops = .ok list') :
    ∀ i < k, list.reverse[i]? = list'.reverse[i]? := by
  cases accept with
  | true => exact list_alike (hends rfl) (hends' rfl) (hvalues rfl) hl hl'
  | false =>
    have hnone : ∀ name, options.destination name ≠ some d := fun name hname => absurd (hd name hname) (by decide)
    rw [headerText_ignored hnone] at hl hl'
    obtain rfl : list = list' := Except.ok.inj (hl.symm.trans hl')
    exact fun i _ => rfl

lemma xForwarded_resolves_alike {peer : IpEndpoint} (hmode : options.mode = .xForwarded)
    (hpeer : options.trusted peer.address = true) {nodes protos hosts : Bytes} {k : ℕ}
    (hstops : ∀ list, forwardedList nodes options.maxHops = .ok list → options.Stops list.reverse k)
    (hprotos : options.acceptProto = true → ∀ list, forwardedList protos options.maxHops = .ok list → k ≤ list.length)
    (hhosts : options.acceptHost = true → ∀ list, forwardedList hosts options.maxHops = .ok list → k ≤ list.length)
    {headers headers' : HttpHeaders} (hends : options.EndsAs nodes protos hosts headers)
    (hends' : options.EndsAs nodes protos hosts headers') {p p' : ProxyPeer}
    (h : options.resolve peer headers = .ok p) (h' : options.resolve peer headers' = .ok p') : p = p' := by
  obtain ⟨c, hops, htext, hhops, hwalk⟩ := resolve_trusted hpeer h
  obtain ⟨c', hops', htext', hhops', hwalk'⟩ := resolve_trusted hpeer h'
  obtain ⟨ns, ps, hs, hns, hps, hhs, rfl⟩ := hops_xForwarded hmode hhops
  obtain ⟨ns', ps', hs', hns', hps', hhs', rfl⟩ := hops_xForwarded hmode hhops'
  have hxff : c.xff = options.headerText .xff headers := htext .xff
  have hproto : c.proto = options.headerText .proto headers := htext .proto
  have hhost : c.host = options.headerText .host headers := htext .host
  have hxff' : c'.xff = options.headerText .xff headers' := htext' .xff
  have hproto' : c'.proto = options.headerText .proto headers' := htext' .proto
  have hhost' : c'.host = options.headerText .host headers' := htext' .host
  rw [hxff] at hns
  rw [hproto] at hps
  rw [hhost] at hhs
  rw [hxff'] at hns'
  rw [hproto'] at hps'
  rw [hhost'] at hhs'
  have hp := values_alike (fun _ => destination_accepted) hprotos hends.protos hends'.protos hps hps'
  have hh := values_alike (fun _ => destination_accepted_host) hhosts hends.hosts hends'.hosts hhs hhs'
  obtain ⟨front, tail, rfl, htail⟩ := forwardedList_endsWith hends.nodes hns
  obtain ⟨front', tail', rfl, htail'⟩ := forwardedList_endsWith hends'.nodes hns'
  obtain rfl : tail = tail' := Except.ok.inj (htail.symm.trans htail')
  have hk := hstops tail htail
  have hlen := hk.le_length
  rw [List.length_reverse] at hlen
  have hsame : ∀ i < k, (alignedHops (front ++ tail) ps hs).reverse[i]? =
      (alignedHops (front' ++ tail) ps' hs').reverse[i]? := by
    intro i hi
    rw [alignedHops_reverse, alignedHops_reverse, hp i hi, hh i hi,
      @reverse_getElem_tail _ front front' tail i (by omega)]
  have hnodes (front ps hs : List Bytes) :
      tail.reverse <+: (alignedHops (front ++ tail) ps hs).reverse.map Hop.node := by
    rw [List.map_reverse, alignedHops_nodes, List.reverse_append]
    exact List.prefix_append _ _
  have hcongr := @walk_congr options _ k hk _ _ (hnodes front ps hs) (hnodes front' ps' hs') hsame
    ⟨peer, peer, 0, [], []⟩ hpeer
  rw [hwalk, hwalk'] at hcongr
  exact Except.ok.inj hcongr

/-- Behind a trusted peer the result is the same whatever a client has put in front of what the
proxies wrote, and behind any other peer no header is looked at. -/
theorem forwarded_not_spoofed (options : TrustedProxyOptions) (peer : IpEndpoint) :
    (options.trusted peer.address = true → options.mode = .forwarded → ∀ w x w', Blank w → HopsText x → Blank w' →
      (∀ hops, parseForwarded options.maxHops (w ++ x ++ w') = .ok hops →
        ∃ k, options.Stops (hops.reverse.map Hop.node) k) →
      ∀ headers headers', EndsWith (options.headerText .forwarded headers) (w ++ x ++ w') →
        EndsWith (options.headerText .forwarded headers') (w ++ x ++ w') →
        ∀ p p', options.resolve peer headers = .ok p → options.resolve peer headers' = .ok p' → p = p') ∧
    (options.trusted peer.address = true → options.mode = .xForwarded → ∀ nodes protos hosts k,
      (∀ list, forwardedList nodes options.maxHops = .ok list → options.Stops list.reverse k) →
      (options.acceptProto = true → ∀ list, forwardedList protos options.maxHops = .ok list → k ≤ list.length) →
      (options.acceptHost = true → ∀ list, forwardedList hosts options.maxHops = .ok list → k ≤ list.length) →
      ∀ headers headers', options.EndsAs nodes protos hosts headers → options.EndsAs nodes protos hosts headers' →
        ∀ p p', options.resolve peer headers = .ok p → options.resolve peer headers' = .ok p' → p = p') ∧
    (options.trusted peer.address = false → ∀ headers headers',
      options.resolve peer headers = options.resolve peer headers') := by
  refine ⟨?_, ?_, ?_⟩
  · intro hpeer hmode w x w' hw hx hw' hstops headers headers' hends hends' p p' h h'
    exact forwarded_resolves_alike hmode hpeer hw hx hw' hstops hends hends' h h'
  · intro hpeer hmode nodes protos hosts k hstops hprotos hhosts headers headers' hends hends' p p' h h'
    exact xForwarded_resolves_alike hmode hpeer hstops hprotos hhosts hends hends' h h'
  · intro hpeer headers headers'
    simp only [resolve, hpeer, Bool.not_false, ↓reduceIte]

def edgeProxy : TrustedProxyOptions := ⟨[⟨⟨.v4, [10, 0, 0, 0], 0⟩, 8⟩], .forwarded, 32, 8192, false, false, true⟩

def edgePeer : IpEndpoint := ⟨⟨.v4, [10, 0, 0, 1], 0⟩, 443⟩

def visitor : IpEndpoint := ⟨⟨.v4, [203, 0, 113, 9], 0⟩, 0⟩

lemma parse_visitor (n : ℕ) :
    parseForwarded (n + 1) (ascii "for=203.0.113.9") = .ok [⟨ascii "203.0.113.9", [], []⟩] := by
  have hpair : forwardedPair [] (ascii "for=203.0.113.9") = some (ascii "for", ascii "203.0.113.9", []) := by decide
  unfold parseForwarded
  rw [if_neg (by decide)]
  simp only [forwardedHop_eq, hpair]
  unfold parseForwarded
  rfl

lemma parse_spoofed : parseForwarded 32 (ascii "for=1.1.1.1,for=203.0.113.9") =
    .ok [⟨ascii "1.1.1.1", [], []⟩, ⟨ascii "203.0.113.9", [], []⟩] := by
  have hpair : forwardedPair [] (ascii "for=1.1.1.1,for=203.0.113.9") =
      some (ascii "for", ascii "1.1.1.1", ascii ",for=203.0.113.9") := by decide
  have hafter : afterPair [ascii "for"] ⟨ascii "1.1.1.1", [], []⟩ (ascii ",for=203.0.113.9") =
      some (⟨ascii "1.1.1.1", [], []⟩, ascii "for=203.0.113.9") := rfl
  unfold parseForwarded
  rw [if_neg (by decide)]
  simp only [forwardedHop_eq, hpair, Option.bind_some]
  have hassign : Hop.assign ⟨[], [], []⟩ (ascii "for") (ascii "1.1.1.1") = ⟨ascii "1.1.1.1", [], []⟩ := rfl
  rw [hassign, hafter]
  simp only [parse_visitor]
  rfl

lemma resolve_visitor : edgeProxy.resolve edgePeer [(ascii "Forwarded", ascii "for=203.0.113.9")] =
    .ok ⟨edgePeer, visitor, 1, [], []⟩ := by
  have hcollect : edgeProxy.collect ⟨[], [], [], [], 0⟩ [(ascii "Forwarded", ascii "for=203.0.113.9")] =
      .ok ⟨ascii "for=203.0.113.9", [], [], [], 16⟩ := rfl
  rw [resolve, if_neg (by decide), if_neg (by decide), hcollect]
  simp only [bind, Except.bind, hops, edgeProxy, parse_visitor]
  rfl

def spoofedHeaders : HttpHeaders :=
  [(ascii "Forwarded", ascii "for=1.1.1.1"), (ascii "Forwarded", ascii "for=203.0.113.9")]

lemma resolve_spoofed : edgeProxy.resolve edgePeer spoofedHeaders =
    .ok ⟨edgePeer, visitor, 1, [], []⟩ := by
  have hcollect : edgeProxy.collect ⟨[], [], [], [], 0⟩ spoofedHeaders =
      .ok ⟨ascii "for=1.1.1.1,for=203.0.113.9", [], [], [], 28⟩ := rfl
  rw [resolve, if_neg (by decide), if_neg (by decide), hcollect]
  simp only [bind, Except.bind, hops, edgeProxy, parse_spoofed]
  rfl

theorem forwarded_not_spoofed_visitor :
    ∃ p, edgeProxy.resolve edgePeer spoofedHeaders = .ok p ∧ p = ⟨edgePeer, visitor, 1, [], []⟩ := by
  have hvalue : PairText (ascii "for=203.0.113.9") :=
    ⟨ascii "for", [], [], ascii "203.0.113.9", rfl, by decide, by simp [Blank], by simp [Blank], .inl (by decide)⟩
  have hstops : edgeProxy.Stops [ascii "203.0.113.9"] 1 :=
    @Stops.untrusted edgeProxy _ _ visitor (by decide) (by decide)
  refine ⟨_, resolve_spoofed, ?_⟩
  refine (forwarded_not_spoofed edgeProxy edgePeer).1 (by decide) rfl [] (ascii "for=203.0.113.9") [] (by simp [Blank])
    (.hop (.pair hvalue)) (by simp [Blank]) ?_ spoofedHeaders [(ascii "Forwarded", ascii "for=203.0.113.9")]
    (.inr ⟨ascii "for=1.1.1.1", by decide⟩) (.inl (by decide)) _ _ resolve_spoofed resolve_visitor
  intro hops hhops
  obtain rfl := Except.ok.inj ((parse_visitor 31).symm.trans hhops)
  exact ⟨1, hstops⟩

end TrustedProxyOptions

end ServerCore.Web
