import Mathlib.Data.List.TakeWhile
import Mathlib.Tactic.IntervalCases
import ServerCore.Web.MultipartFraming
import ServerCore.Web.MultipartHeaders

/-! Encoding parts and decoding them again, for every cut of the encoded text. -/

namespace ServerCore.Web.Multipart

open ServerCore.Core ServerCore.Foundations

def encodeAfter (marker : Bytes) : List Part → Bytes
  | [] => ascii "--"
  | part :: rest =>
    crlf ++ (fieldLines part.fields ++ (crlf ++ crlf ++ (part.payload ++ (crlf ++ marker ++ encodeAfter marker rest))))

def encode (value : Bytes) (parts : List Part) : Bytes :=
  (ascii "--" ++ value) ++ encodeAfter (ascii "--" ++ value) parts

def partAtoms : ℕ → List Part → List Atom
  | _, [] => []
  | index, part :: rest =>
    .partBegin (part.event index) :: (part.payload.map (.byte index) ++ .partEnd index :: partAtoms (index + 1) rest)

def Part.isFile (part : Part) : Bool := (part.disposition.entries.lookup (ascii "filename")).isSome

structure Part.Within (options : Options) (part : Part) : Prop where
  headers : part.fields.length ≤ options.maxHeaders
  headerBytes : (fieldLines part.fields).length + 4 ≤ options.maxHeaderBytes
  payload : part.payload.length ≤ if part.isFile then options.maxFileBytes else options.maxPartBytes

structure Within (value : Bytes) (options : Options) (parts : List Part) : Prop where
  count : parts.length ≤ options.maxParts
  files : (parts.filter Part.isFile).length ≤ options.maxFiles
  each : ∀ part ∈ parts, part.Within options
  total : (encode value parts).length ≤ options.maxTotalBytes

def DelimiterAtFront (value text : Bytes) : Prop :=
  ∃ dashes pad rest, (dashes = [] ∨ dashes = ascii "--") ∧ Blanks pad ∧
    text = crlf ++ (ascii "--" ++ value) ++ (dashes ++ (pad ++ (crlf ++ rest)))

def Unambiguous (value payload : Bytes) : Prop :=
  ∀ i < payload.length, ¬ DelimiterAtFront value ((payload ++ (crlf ++ (ascii "--" ++ value) ++ crlf)).drop i)

section Payload

variable {limit n : ℕ} {final : Bool} {pos : ℕ} {value payload x y : Bytes}

lemma paddingSuffix_grammar (h : paddingSuffix limit false final pos x = .normal n ∨
    paddingSuffix limit false final pos x = .final n) : ∃ pad rest, Blanks pad ∧ x = pad ++ (crlf ++ rest) := by
  simp only [paddingSuffix] at h
  split at h
  · simp at h
  cases hd : x.dropWhile isBlank with
  | nil => simp [hd] at h
  | cons b rest =>
    simp only [hd] at h
    split at h
    · simp at h
    rename_i hb
    cases rest with
    | nil => simp at h
    | cons c rest =>
      simp only at h
      split at h
      · simp at h
      rename_i hc
      obtain rfl : b = 13 := by simpa using hb
      obtain rfl : c = 10 := by simpa using hc
      refine ⟨x.takeWhile isBlank, rest, fun b hb => List.mem_takeWhile_imp hb, ?_⟩
      have := List.takeWhile_append_dropWhile (p := isBlank) (l := x)
      rw [hd] at this
      exact this.symm

lemma delimiterSuffix_grammar (h : delimiterSuffix limit false x = .normal n ∨ delimiterSuffix limit false x = .final n) :
    ∃ dashes pad rest, (dashes = [] ∨ dashes = ascii "--") ∧ Blanks pad ∧ x = dashes ++ (pad ++ (crlf ++ rest)) := by
  cases x with
  | nil => simp [delimiterSuffix, paddingSuffix] at h
  | cons b rest =>
    simp only [delimiterSuffix] at h
    split at h
    · rename_i hb
      obtain rfl : b = 45 := by simpa using hb
      cases rest with
      | nil => simp at h
      | cons c rest =>
        simp only at h
        split at h
        · simp at h
        rename_i hc
        obtain rfl : c = 45 := by simpa using hc
        obtain ⟨pad, tail, hpad, rfl⟩ := paddingSuffix_grammar h
        exact ⟨ascii "--", pad, tail, .inr rfl, hpad, rfl⟩
    · obtain ⟨pad, tail, hpad, heq⟩ := paddingSuffix_grammar h
      exact ⟨[], pad, tail, .inl rfl, hpad, heq⟩

lemma paddingSuffix_line {l i : ℕ} {b : Bool} (w : Bytes) : paddingSuffix l false b i (w ++ crlf) ≠ .more := by
  intro h
  simp only [paddingSuffix] at h
  split at h
  · cases h
  cases hd : (w ++ crlf).dropWhile isBlank with
  | nil =>
    have hall := List.dropWhile_eq_nil_iff.mp hd
    exact absurd (hall 13 (by simp [crlf])) (by decide)
  | cons b rest =>
    simp only [hd] at h
    split at h
    · cases h
    cases rest with
    | nil =>
      have hlast : (w ++ crlf).getLast? = some 10 := by
        rw [List.getLast?_append_of_ne_nil _ (by simp [crlf])]
        rfl
      have hsuffix : [b] <:+ w ++ crlf := hd ▸ List.dropWhile_suffix isBlank
      obtain ⟨front, hfront⟩ := hsuffix
      rename_i hb
      rw [← hfront, List.getLast?_append_of_ne_nil _ (by simp)] at hlast
      obtain rfl : b = 10 := by simpa using hlast
      simp at hb
    | cons c rest =>
      simp only at h
      split_ifs at h

lemma delimiterSuffix_line (limit : ℕ) (w : Bytes) : delimiterSuffix limit false (w ++ crlf) ≠ .more := by
  cases w with
  | nil =>
    have hline := paddingSuffix_line (l := limit) (b := false) (i := 0) []
    simpa [delimiterSuffix, crlf] using hline
  | cons b w =>
    simp only [List.cons_append, delimiterSuffix]
    split
    · cases hw : w ++ crlf with
      | nil => simp [crlf] at hw
      | cons c rest =>
        simp only
        split
        · simp
        · cases w with
          | nil =>
            obtain ⟨rfl, rfl⟩ : (13 : Byte) = c ∧ [10] = rest := by simpa [crlf] using hw
            rename_i hc
            simp at hc
          | cons d w =>
            obtain ⟨rfl, rfl⟩ : d = c ∧ w ++ crlf = rest := by simpa using hw
            exact paddingSuffix_line w
    · rw [← List.cons_append]
      exact paddingSuffix_line _

lemma marker_no_cr (hb : boundary value = true) : (13 : Byte) ∉ ascii "--" ++ value := by
  simp only [boundary, Bool.and_eq_true, List.all_eq_true] at hb
  simp only [List.mem_append, not_or]
  exact ⟨by decide, fun hmem => absurd (hb.2 13 hmem) (by decide)⟩

lemma delimiter_within (hb : boundary value = true) {i : ℕ} (hi : i < payload.length) {after : Bytes}
    (h : crlf ++ (ascii "--" ++ value) <+: (payload ++ (crlf ++ (ascii "--" ++ value) ++ after)).drop i) :
    i + (crlf ++ (ascii "--" ++ value)).length ≤ payload.length := by
  by_contra hlt
  obtain ⟨tail, htail⟩ := h
  have hget : (crlf ++ (ascii "--" ++ value) ++ tail)[payload.length - i]? = some 13 := by
    rw [htail, List.getElem?_drop, show i + (payload.length - i) = payload.length by omega,
      List.getElem?_append_right (le_refl _)]
    simp [crlf]
  rw [List.getElem?_append_left (by omega), List.getElem?_append] at hget
  have hmem : (13 : Byte) ∉ ascii "--" ++ value := marker_no_cr hb
  split at hget
  · rename_i hsmall
    have hone : payload.length - i = 1 := by
      simp only [crlf, List.length_cons, List.length_nil] at hsmall
      omega
    rw [hone] at hget
    simp [crlf] at hget
  · exact hmem (List.mem_of_getElem? hget)

lemma payload_opening (limit : ℕ) (hb : boundary value = true) (hu : Unambiguous value payload) {i : ℕ} (hi : i < payload.length)
    (after : Bytes) :
    opening limit true (crlf ++ (ascii "--" ++ value))
      ((payload ++ (crlf ++ (ascii "--" ++ value) ++ after)).drop i) = .invalid := by
  set delimiter := crlf ++ (ascii "--" ++ value) with hdelim
  by_cases hpre : delimiter <+: (payload ++ (delimiter ++ after)).drop i
  · have hin := delimiter_within hb hi hpre
    rw [← hdelim] at hin
    have hsplit (z : Bytes) : (payload ++ z).drop (i + delimiter.length) = payload.drop (i + delimiter.length) ++ z :=
      List.drop_append_of_le_length hin
    have hline := delimiterSuffix_line limit (payload.drop (i + delimiter.length))
    have hdecide (z : Bytes) : delimiterSuffix limit true (payload.drop (i + delimiter.length) ++ (crlf ++ z)) =
        delimiterSuffix limit false (payload.drop (i + delimiter.length) ++ crlf) := by
      rw [← List.append_assoc]
      exact delimiterSuffix_append hline (by simp)
    rw [opening_of_starts hpre, List.drop_drop, hsplit]
    have hz : delimiter ++ after = crlf ++ ((ascii "--" ++ value) ++ after) := by rw [hdelim, List.append_assoc]
    rw [hz, hdecide]
    cases hs : delimiterSuffix limit false (payload.drop (i + delimiter.length) ++ crlf) with
    | invalid => rfl
    | more => exact absurd hs hline
    | normal n | final n =>
      exfalso
      have hfound : delimiterSuffix limit false (payload.drop (i + delimiter.length) ++ crlf) = .normal n ∨
          delimiterSuffix limit false (payload.drop (i + delimiter.length) ++ crlf) = .final n := by
        rw [hs]
        simp
      obtain ⟨dashes, pad, rest, hd, hp, heq⟩ := delimiterSuffix_grammar hfound
      refine hu i hi ⟨dashes, pad, rest ++ ((ascii "--" ++ value) ++ crlf), hd, hp, ?_⟩
      have hpayload : delimiter <+: payload.drop i := by
        rw [List.drop_append_of_le_length hi.le] at hpre
        exact List.prefix_of_prefix_length_le hpre (List.prefix_append _ _) (by
          simp only [List.length_drop]
          omega)
      obtain ⟨tail, htail⟩ := hpayload
      have htail' : payload.drop (i + delimiter.length) = tail := by
        rw [← List.drop_drop, ← htail, List.drop_left]
      rw [htail'] at heq
      rw [List.drop_append_of_le_length hi.le, ← htail, ← hdelim, hdelim]
      simp only [List.append_assoc]
      rw [← List.append_assoc tail crlf, heq]
      simp only [List.append_assoc]
  · exact opening_of_not_starts hpre

end Payload

section Decode

variable {value : Bytes} {options : Options} {s : State} {part : Part} {rest : List Part}

lemma opening_next (limit : ℕ) (pattern tail : Bytes) : opening limit true pattern (pattern ++ (crlf ++ tail)) = .normal 2 := by
  rw [opening_of_starts (List.prefix_append _ _), List.drop_left]
  simp [delimiterSuffix, paddingSuffix, crlf, isBlank, List.takeWhile, List.dropWhile]

lemma opening_last {limit : ℕ} (hlimit : 2 ≤ limit) (pattern : Bytes) :
    opening limit true pattern (pattern ++ ascii "--") = .final 2 := by
  rw [opening_of_starts (List.prefix_append _ _), List.drop_left, show ascii "--" = [45, 45] from by decide]
  simp [delimiterSuffix, paddingSuffix, List.takeWhile, List.dropWhile]
  omega

structure State.Before (s : State) (value : Bytes) (parts : List Part) : Prop where
  delimiter : s.delimiter = crlf ++ (ascii "--" ++ value)
  limit : 2 ≤ s.options.maxHeaderBytes
  count : s.part + parts.length ≤ s.options.maxParts
  files : s.files + (parts.filter Part.isFile).length ≤ s.options.maxFiles
  each : ∀ part ∈ parts, part.Wf ∧ part.Within s.options ∧ Unambiguous value part.payload

lemma scanHeaders_part (h : s.Before value (part :: rest)) {after : Bytes}
    (hbuf : s.buffer = fieldLines part.fields ++ (crlf ++ crlf ++ after)) :
    s.scanHeaders.2 = .partBegin (part.event (s.part + 1)) ((fieldLines part.fields).length + 4) := by
  obtain ⟨hwf, hin, -⟩ := h.each part (by simp)
  have hne : part.fields ≠ [] := by
    intro hnil
    have := hwf.one
    simp [hnil] at this
  have hfind := find_block hne hwf.fields after
  rw [← hbuf] at hfind
  have htake : s.buffer.take (fieldLines part.fields).length = fieldLines part.fields := by
    rw [hbuf, List.take_left]
  have hcount := h.count
  have hfiles := h.files
  have hbytes := hin.headerBytes
  simp only [List.length_cons] at hcount
  simp only [State.scanHeaders, hfind, htake, headers_part hwf hin.headers]
  rw [if_neg (by omega), if_neg (by omega), if_neg]
  simp only [Bool.and_eq_true, decide_eq_true_eq, not_and]
  intro hfile
  have hisFile : part.isFile = true := hfile
  rw [List.filter_cons, if_pos hisFile, List.length_cons] at hfiles
  omega

def State.afterPart (s : State) (part : Part) (final : Bool) (length : ℕ) : State :=
  ((s.beginPart (part.event (s.part + 1)) ((fieldLines part.fields).length + 4)).passBytes
    part.payload.length).passDelimiter final (s.delimiter.length + length)

lemma decode_part (hb : boundary value = true) (h : s.Before value (part :: rest)) (hp : s.phase = .headers)
    {after : Bytes} (hbuf : s.buffer = fieldLines part.fields ++ (crlf ++ crlf ++ (part.payload ++ (s.delimiter ++ after))))
    {b : Bool} {length : ℕ}
    (ho : opening s.options.maxHeaderBytes true s.delimiter (s.delimiter ++ after) =
      if b then .final length else .normal length) :
    s.decode = (s.afterPart part b length).decode.map fun tail =>
      .partBegin (part.event (s.part + 1)) :: (part.payload.map (.byte (s.part + 1)) ++ .partEnd (s.part + 1) :: tail) := by
  obtain ⟨hwf, hin, hu⟩ := h.each part (by simp)
  have hnext : s.next = .go [.partBegin (part.event (s.part + 1))]
      (s.beginPart (part.event (s.part + 1)) ((fieldLines part.fields).length + 4)) := by
    simp only [State.next, hp, scanHeaders_part h hbuf]
  set t := s.beginPart (part.event (s.part + 1)) ((fieldLines part.fields).length + 4) with ht
  have htbuf : t.buffer = part.payload ++ (s.delimiter ++ after) := by
    simp only [ht, State.beginPart, hbuf]
    rw [← List.append_assoc, List.drop_left']
    simp [crlf]
  have hpayload : part.payload.length ≤ t.limit := hin.payload
  have hbytes := (decode_bytes (s := t) (c := part.payload.length) rfl (by rw [htbuf]; simp) (by
    intro j hj
    rw [htbuf]
    have := payload_opening s.options.maxHeaderBytes hb hu hj after
    rw [← h.delimiter] at this
    exact this)).1 (by
      simp only [ht, State.beginPart, Nat.zero_add]
      exact hpayload)
  have hclose : (t.passBytes part.payload.length).next = .go [.partEnd (s.part + 1)] (s.afterPart part b length) := by
    have hbuf' : (t.passBytes part.payload.length).buffer = s.delimiter ++ after := by
      simp only [State.passBytes, htbuf, List.drop_left]
    have hphase : (t.passBytes part.payload.length).phase = .body := rfl
    have ho' : opening (t.passBytes part.payload.length).options.maxHeaderBytes true
        (t.passBytes part.payload.length).delimiter (s.delimiter ++ after) =
        if b then .final length else .normal length := ho
    simp only [State.next, hphase, hbuf', ho']
    cases b <;> rfl
  have htake : t.buffer.take part.payload.length = part.payload := by rw [htbuf, List.take_left]
  rw [decode_next hnext, hbytes, decode_next hclose, htake, Option.map_map, Option.map_map]
  rfl

lemma decode_parts (hb : boundary value = true) (h : s.Before value (part :: rest)) (hp : s.phase = .headers)
    (hbuf : s.buffer = fieldLines part.fields ++ (crlf ++ crlf ++ (part.payload ++
      (crlf ++ (ascii "--" ++ value) ++ encodeAfter (ascii "--" ++ value) rest)))) :
    s.decode = some (partAtoms (s.part + 1) (part :: rest)) := by
  induction rest generalizing s part with
  | nil =>
    rw [← h.delimiter] at hbuf
    rw [decode_part hb h hp hbuf (b := true) (opening_last h.limit s.delimiter)]
    have hdone : (s.afterPart part true 2).decode = some [] := WholeDecoder.decode_done rfl
    rw [hdone]
    rfl
  | cons next rest ih =>
    rw [← h.delimiter] at hbuf
    rw [decode_part hb h hp hbuf (b := false) (opening_next _ _ _)]
    have hpart : (s.afterPart part false 2).part = s.part + 1 := rfl
    have hoptions : (s.afterPart part false 2).options = s.options := rfl
    have hafter : (s.afterPart part false 2).buffer = fieldLines next.fields ++ (crlf ++ crlf ++ (next.payload ++
        (crlf ++ (ascii "--" ++ value) ++ encodeAfter (ascii "--" ++ value) rest))) := by
      simp only [State.afterPart, State.passDelimiter, State.passBytes, State.beginPart, hbuf, encodeAfter, List.drop_drop]
      rw [← List.append_assoc (crlf ++ crlf), ← List.append_assoc (fieldLines part.fields),
        ← List.append_assoc s.delimiter, ← List.append_assoc _ (s.delimiter ++ crlf), List.drop_left']
      simp only [List.length_append, crlf, List.length_cons, List.length_nil]
      omega
    have hbefore : (s.afterPart part false 2).Before value (next :: rest) := by
      have hcount := h.count
      have hfiles := h.files
      refine ⟨h.delimiter, h.limit, ?_, ?_, fun q hq => h.each q (List.mem_cons_of_mem _ hq)⟩
      · rw [hpart, hoptions]
        simp only [List.length_cons] at hcount ⊢
        omega
      · have hf : (s.afterPart part false 2).files = if part.isFile then s.files + 1 else s.files := rfl
        rw [hf, hoptions]
        rw [List.filter_cons] at hfiles
        split at hfiles
        · rename_i hfile
          rw [if_pos hfile]
          rw [List.length_cons] at hfiles
          omega
        · rename_i hfile
          rw [if_neg hfile]
          exact hfiles
    rw [ih hbefore rfl hafter, hpart]
    rfl

lemma meaning_encode {parts : List Part} (hb : boundary value = true) (hlimit : 2 ≤ options.maxHeaderBytes)
    (hw : Within value options parts) (hparts : ∀ part ∈ parts, part.Wf ∧ Unambiguous value part.payload) :
    StartsWithDelimiter value options (encode value parts) ∧
      meaning value options (encode value parts) = some (partAtoms 1 parts) := by
  cases parts with
  | nil =>
    have ho := opening_last hlimit (ascii "--" ++ value)
    refine ⟨?_, ?_⟩
    · rw [StartsWithDelimiter, encode, encodeAfter, ho]
      rfl
    · rw [encode, encodeAfter, meaning_of_delimiter (b := true) ho]
      exact WholeDecoder.decode_done rfl
  | cons part rest =>
    have ho := opening_next options.maxHeaderBytes (ascii "--" ++ value) (fieldLines part.fields ++
      (crlf ++ crlf ++ (part.payload ++ (crlf ++ (ascii "--" ++ value) ++ encodeAfter (ascii "--" ++ value) rest))))
    refine ⟨?_, ?_⟩
    · rw [StartsWithDelimiter, encode, encodeAfter, ho]
      rfl
    · rw [encode, encodeAfter, meaning_of_delimiter (b := false) ho]
      apply decode_parts hb
      · refine ⟨rfl, hlimit, ?_, ?_, fun q hq => ⟨(hparts q hq).1, hw.each q hq, (hparts q hq).2⟩⟩
        · rw [show (((State.fresh value options).whole _).passDelimiter false _).part = 0 from rfl, Nat.zero_add]
          exact hw.count
        · rw [show (((State.fresh value options).whole _).passDelimiter false _).files = 0 from rfl, Nat.zero_add]
          exact hw.files
      · rfl
      · simp only [State.passDelimiter, State.whole, State.fresh, List.nil_append]
        rw [← List.append_assoc _ crlf, List.drop_left']
        rw [List.length_append]
        rfl

end Decode

section Events

inductive Delivers (maxEventBytes : ℕ) : ℕ → List Part → List Event → Prop
  | nil {index} : Delivers maxEventBytes index [] []
  | cons {index part rest pieces close events} :
      (∀ piece ∈ pieces, piece.kind = .data ∧ piece.partIndex = index ∧ 0 < piece.data.length ∧
        piece.data.length ≤ maxEventBytes) →
      pieces.flatMap Event.data = part.payload → close.kind = .partEnd → close.partIndex = index →
      Delivers maxEventBytes (index + 1) rest events →
      Delivers maxEventBytes index (part :: rest) (part.event index :: (pieces ++ close :: events))

variable {maxEventBytes index : ℕ} {events : List Event}

lemma bytes_split {xs ys : Bytes} {p i : ℕ} {a tail : List Atom}
    (h : xs.map (Atom.byte p) ++ a = ys.map (Atom.byte i) ++ .partEnd i :: tail) :
    (xs ≠ [] → p = i) ∧ ∃ ys', ys = xs ++ ys' ∧ a = ys'.map (Atom.byte i) ++ .partEnd i :: tail := by
  induction xs generalizing ys with
  | nil => exact ⟨fun h => absurd rfl h, ys, rfl, h⟩
  | cons x xs ih =>
    cases ys with
    | nil => simp at h
    | cons y ys =>
      simp only [List.map_cons, List.cons_append, List.cons.injEq, Atom.byte.injEq] at h
      obtain ⟨⟨rfl, rfl⟩, h⟩ := h
      obtain ⟨-, ys', rfl, ha⟩ := ih h
      exact ⟨fun _ => rfl, ys', rfl, ha⟩

lemma events_split (hsize : ∀ event ∈ events, event.kind = .data → 0 < event.data.length ∧ event.data.length ≤ maxEventBytes)
    {payload : Bytes} {tail : List Atom} (h : atoms events = payload.map (Atom.byte index) ++ .partEnd index :: tail) :
    ∃ pieces close rest, events = pieces ++ close :: rest ∧
      (∀ piece ∈ pieces, piece.kind = .data ∧ piece.partIndex = index ∧ 0 < piece.data.length ∧
        piece.data.length ≤ maxEventBytes) ∧
      pieces.flatMap Event.data = payload ∧ close.kind = .partEnd ∧ close.partIndex = index ∧ atoms rest = tail := by
  induction events generalizing payload with
  | nil => simp [atoms] at h
  | cons event events ih =>
    have hrest := fun e he => hsize e (List.mem_cons_of_mem _ he)
    rw [show atoms (event :: events) = event.atoms ++ atoms events from rfl] at h
    cases hk : event.kind with
    | partBegin =>
      simp only [Event.atoms, hk] at h
      cases payload <;> simp at h
    | data =>
      simp only [Event.atoms, hk] at h
      obtain ⟨hpos, hmax⟩ := hsize event (by simp) hk
      obtain ⟨hindex, payload', rfl, htail⟩ := bytes_split h
      obtain ⟨pieces, close, rest, rfl, hpieces, hdata, hclose⟩ := ih hrest htail
      refine ⟨event :: pieces, close, rest, rfl, ?_, by simp [hdata], hclose⟩
      intro piece hp
      rcases List.mem_cons.mp hp with rfl | hp
      · exact ⟨hk, hindex (List.length_pos_iff.mp hpos), hpos, hmax⟩
      · exact hpieces piece hp
    | partEnd =>
      simp only [Event.atoms, hk] at h
      cases payload with
      | cons b payload => simp at h
      | nil =>
        simp only [List.map_nil, List.nil_append, List.cons_append, List.cons.injEq, Atom.partEnd.injEq] at h
        exact ⟨[], event, events, rfl, by simp, rfl, hk, h.1, h.2⟩

lemma delivers_of_atoms {parts : List Part}
    (hsize : ∀ event ∈ events, event.kind = .data → 0 < event.data.length ∧ event.data.length ≤ maxEventBytes)
    (h : atoms events = partAtoms index parts) : Delivers maxEventBytes index parts events := by
  induction parts generalizing index events with
  | nil =>
    cases events with
    | nil => exact .nil
    | cons event events =>
      rw [show atoms (event :: events) = event.atoms ++ atoms events from rfl, partAtoms] at h
      have hnil := (List.append_eq_nil_iff.mp h).1
      cases hk : event.kind with
      | data =>
        simp only [Event.atoms, hk, List.map_eq_nil_iff] at hnil
        have := (hsize event (by simp) hk).1
        rw [hnil] at this
        cases this
      | _ => simp [Event.atoms, hk] at hnil
  | cons part rest ih =>
    cases events with
    | nil => simp [atoms, partAtoms] at h
    | cons event events =>
      rw [show atoms (event :: events) = event.atoms ++ atoms events from rfl, partAtoms] at h
      have hrest := fun e he => hsize e (List.mem_cons_of_mem _ he)
      cases hk : event.kind with
      | partBegin =>
        simp only [Event.atoms, hk, List.cons_append, List.nil_append, List.cons.injEq, Atom.partBegin.injEq] at h
        obtain ⟨rfl, h⟩ := h
        obtain ⟨pieces, close, later, rfl, hpieces, hdata, hclose, hindex, htail⟩ := events_split hrest h
        exact .cons hpieces hdata hclose hindex (ih (fun e he => hrest e (by simp [he])) htail)
      | data =>
        simp only [Event.atoms, hk] at h
        cases hd : event.data with
        | nil =>
          have := (hsize event (by simp) hk).1
          rw [hd] at this
          cases this
        | cons b data => simp [hd] at h
      | partEnd => simp [Event.atoms, hk] at h

end Events

lemma create_header_bytes {contentType : Bytes} {options : Options} {s : State} (h : create contentType options = .ok s) :
    2 ≤ options.maxHeaderBytes := by
  simp only [create] at h
  split at h
  · cases h
  split at h
  · cases h
  rename_i hlen
  split at h
  · cases h
  rename_i parsed hp
  split at h
  · cases h
  rename_i hmain
  have hmain : parsed.main = ascii "multipart/form-data" := by simpa using hmain
  obtain ⟨found, -, rfl⟩ := Option.map_eq_some_iff.mp hp
  have hl := congrArg List.length hmain
  have hm : (ascii "multipart/form-data").length = 19 := by decide
  have ht := trim_length_le (upTo contentType (find (ascii ";") contentType))
  have hu : (upTo contentType (find (ascii ";") contentType)).length ≤ contentType.length := by
    cases find (ascii ";") contentType <;> simp [upTo]
  simp only [List.length_map] at hl
  omega

/-- Decoding undoes encoding for every cut, and for a text without preamble the cut does not
decide whether it is accepted. -/
theorem multipart_round_trip :
    (∀ contentType options value parts, create contentType options = .ok (.fresh value options) →
      Within value options parts → (∀ part ∈ parts, part.Wf ∧ Unambiguous value part.payload) →
      ∀ t, Steps Transfer.step (.start value options (encode value parts)) t →
        (∀ code, t.ended ≠ some (some code)) ∧
        (t.ended = some none → Delivers options.maxEventBytes 1 parts t.events) ∧
        ∃ t', Steps Transfer.step t t' ∧ t'.ended = some none) ∧
    (∀ contentType options value text, create contentType options = .ok (.fresh value options) →
      NoPreamble value options text →
      (∀ t t' result result', Steps Transfer.step (.start value options text) t →
        Steps Transfer.step (.start value options text) t' → t.ended = some result → t'.ended = some result' →
        (result.isSome = true ↔ result'.isSome = true)) ∧
      ∀ t, Steps Transfer.step (.start value options text) t →
        ∃ t', Steps Transfer.step t t' ∧ t'.ended.isSome = true) := by
  constructor
  · intro contentType options value parts hc hw hparts t ht
    obtain ⟨value', hb, hv, heq⟩ := create_fresh hc
    obtain rfl : value = value' := by simpa [State.fresh] using congrArg State.marker heq
    obtain ⟨hstart, hm⟩ := meaning_encode hb (create_header_bytes hc) hw hparts
    have hl := open_leads hstart
    have hf := steps_follows hl (follows_start hv hb ⟨rfl, rfl⟩) ht
    have hgood {t' : Transfer} (hf' : t'.Follows value options (meaning value options (encode value parts))
        (OpenLead (encode value parts)) (encode value parts).length) (code : ErrorCode) : t'.ended ≠ some (some code) := by
      intro hend
      have hbad := (hf'.outcome hend).1.mp rfl
      rw [hm] at hbad
      have := hw.total
      rcases hbad with hbad | hbad
      · cases hbad
      · omega
    refine ⟨hgood hf, fun hend => ?_, ?_⟩
    · have := (hf.outcome hend).2 rfl
      rw [hm, Option.some.injEq] at this
      exact delivers_of_atoms hf.sizes this.symm
    · obtain ⟨t', hs, hend⟩ := transfer_progress hl hf
      refine ⟨t', hs, ?_⟩
      obtain ⟨result, hresult⟩ := Option.isSome_iff_exists.mp hend
      cases result with
      | none => exact hresult
      | some code => exact absurd hresult (hgood (steps_follows hl hf hs) code)
  · intro contentType options value text hc hn
    obtain ⟨value', hb, hv, heq⟩ := create_fresh hc
    obtain rfl : value = value' := by simpa [State.fresh] using congrArg State.marker heq
    obtain ⟨meaning, Lead, hl, hf⟩ := noPreamble_follows hv hb hn
    refine ⟨fun t t' result result' ht ht' hend hend' => ?_, fun t ht => transfer_progress hl (steps_follows hl hf ht)⟩
    rw [((steps_follows hl hf ht).outcome hend).1, ((steps_follows hl hf ht').outcome hend').1]

def smallDisposition : Disposition where
  main := ascii "Form-Data"
  parameters := [⟨[], [32], ascii "name", [], [], .quoted [(false, 97), (true, 34)]⟩]

def smallPart : Part where
  fields := [⟨ascii "Content-Disposition", [32], smallDisposition.text, []⟩]
  disposition := smallDisposition
  payload := ascii "\r\n--bx"

lemma smallPart_wf : smallPart.Wf where
  fields := by
    intro f hf
    obtain rfl : f = ⟨ascii "Content-Disposition", [32], smallDisposition.text, []⟩ := by simpa [smallPart] using hf
    refine ⟨by decide +kernel, by simp [Blanks, isBlank], by decide +kernel, ?_, by simp [Blanks]⟩
    rintro c (hc | hc)
    · obtain rfl : 70 = c := Option.some.inj ((by decide +kernel : smallDisposition.text.head? = some 70).symm.trans hc)
      decide +kernel
    · obtain rfl : 34 = c := Option.some.inj ((by decide +kernel : smallDisposition.text.getLast? = some 34).symm.trans hc)
      decide +kernel
  disposition := by
    refine ⟨by decide +kernel, ?_, by decide +kernel, by decide +kernel, by decide +kernel⟩
    intro p hp
    obtain rfl : p = ⟨[], [32], ascii "name", [], [], .quoted [(false, 97), (true, 34)]⟩ := by
      simpa [smallPart, smallDisposition] using hp
    refine ⟨by simp [Blanks], by simp [Blanks, isBlank], by decide +kernel, by simp [Blanks], by simp [Blanks], ?_⟩
    exact ⟨by decide +kernel, by decide +kernel⟩
  one := by decide +kernel
  contentType := by decide +kernel
  encoding := by decide +kernel

theorem multipart_round_trip_small :
    ∃ t, Steps Transfer.step (.start (ascii "b") smallOptions (encode (ascii "b") [smallPart])) t ∧
      Delivers smallOptions.maxEventBytes 1 [smallPart] t.events := by
  have hcreate : create (ascii "multipart/form-data; boundary=b") smallOptions = .ok (.fresh (ascii "b") smallOptions) := by
    decide +kernel
  have hwithin : Within (ascii "b") smallOptions [smallPart] := by
    refine ⟨by decide, by decide, ?_, by decide⟩
    intro part hp
    obtain rfl : part = smallPart := by simpa using hp
    exact ⟨by decide, by decide, by decide⟩
  have hparts : ∀ part ∈ [smallPart], part.Wf ∧ Unambiguous (ascii "b") part.payload := by
    intro part hp
    obtain rfl : part = smallPart := by simpa using hp
    refine ⟨smallPart_wf, ?_⟩
    rintro i hi ⟨dashes, pad, rest, hd, hpad, heq⟩
    have htext : smallPart.payload ++ (crlf ++ (ascii "--" ++ ascii "b") ++ crlf) =
        [13, 10, 45, 45, 98, 120, 13, 10, 45, 45, 98, 13, 10] := by decide
    have hfront : crlf ++ (ascii "--" ++ ascii "b") = [13, 10, 45, 45, 98] := by decide
    have hlen : smallPart.payload.length = 6 := by decide
    rw [htext, hfront] at heq
    rw [hlen] at hi
    have hzero : i = 0 := by
      by_contra hne
      interval_cases i <;> simp at heq hne
    subst hzero
    simp only [List.drop_zero, List.cons_append, List.nil_append, List.cons.injEq, true_and] at heq
    rcases hd with rfl | rfl
    · cases pad with
      | nil => simp [crlf] at heq
      | cons c pad =>
        simp only [List.nil_append, List.cons_append, List.cons.injEq] at heq
        exact absurd (hpad c (by simp)) (by rw [← heq.1]; decide)
    · rw [show ascii "--" = [45, 45] by decide] at heq
      simp at heq
  have hround := multipart_round_trip.1 _ _ _ _ hcreate hwithin hparts
  obtain ⟨t, ht, hend⟩ := (hround _ (.refl _)).2.2
  exact ⟨t, ht, (hround t ht).2.1 hend⟩

end ServerCore.Web.Multipart
