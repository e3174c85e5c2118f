import ServerCore.Core.Charconv
import ServerCore.Core.Status
import ServerCore.Core.Utf8
import ServerCore.Web.EventStream
import ServerCore.Web.HeaderSyntax

/-! `EncodeSseEvent`: what it writes is read as the one event it was given. -/

namespace ServerCore.Web

open ServerCore.Core EventStream

structure SseEvent where
  data : Bytes
  event : Bytes := []
  id : Option Bytes := none
  retryMilliseconds : Option UInt64 := none
  deriving DecidableEq, Repr

namespace SseEvent

def appendField (maxBytes : ℕ) (wire name value : Bytes) : Option Bytes :=
  (append maxBytes wire name).bind fun wire =>
    (append maxBytes wire (ascii ": ")).bind fun wire =>
      (append maxBytes wire value).bind fun wire => append maxBytes wire (ascii "\n")

def appendOptional (maxBytes : ℕ) (wire name : Bytes) : Option Bytes → Option Bytes
  | none => some wire
  | some value => appendField maxBytes wire name value

/-- What the loop takes off the front behind the line that ends at `n`. -/
def consumed (remaining : Bytes) (n : ℕ) : ℕ :=
  if remaining[n]? = some 13 ∧ remaining[n + 1]? = some 10 then n + 2 else n + 1

def appendData (maxBytes : ℕ) (wire remaining : Bytes) : Option Bytes :=
  (appendField maxBytes wire (ascii "data") (upTo remaining (findFirst isLineEnd remaining))).bind fun wire =>
    match _h : findFirst isLineEnd remaining with
    | none => some wire
    | some n => appendData maxBytes wire (remaining.drop (consumed remaining n))
termination_by remaining.length
decreasing_by
  have hlt := (List.findIdx?_eq_some_iff_getElem.mp _h).1
  unfold consumed
  rw [List.length_drop]
  split_ifs <;> omega

def appendEvent (e : SseEvent) (maxBytes : ℕ) : Option Bytes :=
  (appendOptional maxBytes [] (ascii "event") (if e.event = [] then none else some e.event)).bind fun wire =>
    (appendOptional maxBytes wire (ascii "id") e.id).bind fun wire =>
      (appendOptional maxBytes wire (ascii "retry") (e.retryMilliseconds.map fun n => toChars 10 n.toNat)).bind fun wire =>
        (appendData maxBytes wire e.data).bind fun wire => append maxBytes wire (ascii "\n")

def hasLineEnd (text : Bytes) : Bool := (findFirst isLineEnd text).isSome

def refused (e : SseEvent) : Bool :=
  !isValidUtf8 e.data || !isValidUtf8 e.event || hasLineEnd e.event ||
    e.id.any fun id => !isValidUtf8 id || hasLineEnd id || id.contains 0

end SseEvent

def encodeSseEvent (e : SseEvent) (maxBytes : ℕ) : Except Status Bytes :=
  if e.refused then .error (.failWithoutMessage .invalidArgument)
  else
    match e.appendEvent maxBytes with
    | none => .error (.failWithoutMessage .tooLarge)
    | some wire => .ok wire

namespace SseEvent

section Append

variable {limit : ℕ} {output value name wire : Bytes}

lemma appendField_some (h : appendField limit output name value = some wire) :
    wire = output ++ eventLine name value ∧ wire.length ≤ limit := by
  simp only [appendField, Option.bind_eq_some_iff] at h
  obtain ⟨w₁, h₁, w₂, h₂, w₃, h₃, h₄⟩ := h
  obtain ⟨rfl, -⟩ := append_some h₁
  obtain ⟨rfl, -⟩ := append_some h₂
  obtain ⟨rfl, -⟩ := append_some h₃
  obtain ⟨rfl, hlength⟩ := append_some h₄
  refine ⟨?_, hlength⟩
  simp only [eventLine, List.append_assoc]

def optionalLine (name : Bytes) : Option Bytes → Bytes
  | none => []
  | some value => eventLine name value

lemma appendOptional_some {field : Option Bytes} (h : appendOptional limit output name field = some wire) :
    wire = output ++ optionalLine name field := by
  cases field with
  | none =>
    cases h
    exact (List.append_nil _).symm
  | some value => exact (appendField_some h).1

end Append

section Lines

lemma findFirst_none {text : Bytes} (h : findFirst isLineEnd text = none) : OneLine text := by
  intro b hb
  exact List.findIdx?_eq_none_iff.mp h b hb

lemma findFirst_some {text : Bytes} {n : ℕ} (h : findFirst isLineEnd text = some n) :
    ∃ b, isLineEnd b = true ∧ text = text.take n ++ b :: text.drop (n + 1) ∧ OneLine (text.take n) := by
  obtain ⟨hlt, hat, hbefore⟩ := List.findIdx?_eq_some_iff_getElem.mp h
  refine ⟨text[n], hat, ?_, ?_⟩
  · rw [← List.drop_eq_getElem_cons hlt, List.take_append_drop]
  · intro b hb
    obtain ⟨i, hi, rfl⟩ := List.mem_take_iff_getElem.mp hb
    exact Bool.eq_false_iff.mpr (hbefore i (by omega))

lemma isLineEnd_ascii {b : Byte} (h : isLineEnd b = true) : b < 0x80 := by
  simp only [isLineEnd, Bool.or_eq_true, decide_eq_true_eq] at h
  rcases h with rfl | rfl <;> decide

lemma drop_consumed {text : Bytes} {n : ℕ} {b : Byte} (hat : text = text.take n ++ b :: text.drop (n + 1))
    (hn : n < text.length) :
    text.drop (consumed text n) =
      if b = carriageReturn ∧ (text.drop (n + 1)).head? = some lineFeed then (text.drop (n + 1)).drop 1
      else text.drop (n + 1) := by
  have hb : text[n]? = some b := by
    rw [hat, List.getElem?_append_right (List.length_take_le n text)]
    simp [hn.le]
  rw [List.head?_drop, consumed, hb]
  by_cases hpair : b = carriageReturn ∧ text[n + 1]? = some lineFeed
  · rw [if_pos hpair, if_pos ⟨congrArg some hpair.1, hpair.2⟩, List.drop_drop]
  · rw [if_neg hpair, if_neg]
    rintro ⟨hcr, hlf⟩
    exact hpair ⟨Option.some.inj hcr, hlf⟩

end Lines

lemma appendData_last {text : Bytes} (h : findFirst isLineEnd text = none) (limit : ℕ) (wire : Bytes) :
    appendData limit wire text = appendField limit wire (ascii "data") text := by
  rw [appendData]
  split
  · rw [h]
    exact Option.bind_fun_some _
  · rename_i n hsome
    rw [h] at hsome
    cases hsome

lemma appendData_next {text : Bytes} {n : ℕ} (h : findFirst isLineEnd text = some n) (limit : ℕ) (wire : Bytes) :
    appendData limit wire text = (appendField limit wire (ascii "data") (text.take n)).bind fun wire =>
      appendData limit wire (text.drop (consumed text n)) := by
  rw [appendData]
  split
  · rename_i hnone
    rw [h] at hnone
    cases hnone
  · rename_i m hsome
    obtain rfl : n = m := Option.some.inj (h.symm.trans hsome)
    rw [h]
    rfl

lemma appendData_some {limit : ℕ} {output remaining wire : Bytes} (h : appendData limit output remaining = some wire)
    (hutf : Utf8 remaining) :
    ∃ lines, wire = output ++ lines.flatMap (eventLine (ascii "data")) ∧ lines ≠ [] ∧
      (∀ line ∈ lines, OneLine line ∧ Utf8 line) ∧ [lineFeed].intercalate lines = normalizeLines remaining := by
  induction hlength : remaining.length using Nat.strong_induction_on generalizing output remaining with
  | _ length ih =>
    cases hfirst : findFirst isLineEnd remaining with
    | none =>
      rw [appendData_last hfirst] at h
      obtain ⟨rfl, -⟩ := appendField_some h
      have hline := findFirst_none hfirst
      refine ⟨[remaining], by simp, by simp, ?_, ?_⟩
      · intro line hmem
        obtain rfl := List.mem_singleton.mp hmem
        exact ⟨hline, hutf⟩
      · have hall := normalizeLines_line hline []
        rw [List.append_nil] at hall
        rw [hall]
        simp [normalizeLines]
    | some n =>
      rw [appendData_next hfirst, Option.bind_eq_some_iff] at h
      obtain ⟨next, hnext, h⟩ := h
      obtain ⟨rfl, -⟩ := appendField_some hnext
      have hlt := (List.findIdx?_eq_some_iff_getElem.mp hfirst).1
      obtain ⟨b, hb, hat, hline⟩ := findFirst_some hfirst
      rw [hat] at hutf
      obtain ⟨hfirst, hrest⟩ := hutf.cut (isLineEnd_ascii hb)
      have hdrop := drop_consumed hat hlt
      have hutf' : Utf8 (remaining.drop (consumed remaining n)) := by
        rw [hdrop]
        split_ifs with hpair
        · have hsplit : remaining.drop (n + 1) = [] ++ lineFeed :: (remaining.drop (n + 1)).drop 1 := by
            rw [List.nil_append]
            cases htail : remaining.drop (n + 1) with
            | nil => simp [htail] at hpair
            | cons c tail =>
              rw [htail] at hpair
              obtain rfl : c = lineFeed := by simpa using hpair.2
              rfl
          rw [hsplit] at hrest
          exact (hrest.cut (by decide)).2
        · exact hrest
      have hshort : (remaining.drop (consumed remaining n)).length < length := by
        rw [List.length_drop, ← hlength]
        unfold consumed
        split_ifs <;> omega
      obtain ⟨lines, rfl, hne, hall, hjoin⟩ := ih _ hshort h hutf' rfl
      refine ⟨remaining.take n :: lines, ?_, by simp, ?_, ?_⟩
      · rw [List.flatMap_cons, List.append_assoc]
      · intro line hmem
        rcases List.mem_cons.mp hmem with rfl | hmem
        · exact ⟨hline, hfirst⟩
        · exact hall line hmem
      · obtain ⟨next, rest, rfl⟩ := List.exists_cons_of_ne_nil hne
        rw [List.intercalate_cons_cons, hjoin, hdrop]
        conv_rhs => rw [hat, normalizeLines_line hline, normalizeLines_end hb]
        simp

structure Accepted (e : SseEvent) : Prop where
  data : Utf8 e.data
  event : Utf8 e.event ∧ OneLine e.event
  id : ∀ id, e.id = some id → Utf8 id ∧ OneLine id ∧ 0 ∉ id

lemma hasLineEnd_eq_false {text : Bytes} (h : hasLineEnd text = false) : OneLine text :=
  findFirst_none (Option.isSome_eq_false_iff.mp h |> Option.isNone_iff_eq_none.mp)

lemma accepted_of {e : SseEvent} (h : e.refused = false) : Accepted e := by
  unfold refused at h
  simp only [Bool.or_eq_false_iff, Bool.not_eq_false'] at h
  obtain ⟨⟨⟨hdata, hevent⟩, hline⟩, hid⟩ := h
  refine ⟨(isValidUtf8_iff _).mp hdata, ⟨(isValidUtf8_iff _).mp hevent, hasLineEnd_eq_false hline⟩, ?_⟩
  intro id heq
  rw [heq, Option.any_some] at hid
  simp only [Bool.or_eq_false_iff, Bool.not_eq_false'] at hid
  obtain ⟨⟨hvalid, hline⟩, hnul⟩ := hid
  exact ⟨(isValidUtf8_iff _).mp hvalid, hasLineEnd_eq_false hline, by simpa using hnul⟩

lemma encode_some {e : SseEvent} {maxBytes : ℕ} {wire : Bytes} (h : encodeSseEvent e maxBytes = .ok wire) :
    Accepted e ∧ wire.length ≤ maxBytes ∧ ∃ lines,
      wire = optionalLine (ascii "event") (if e.event = [] then none else some e.event) ++
        (optionalLine (ascii "id") e.id ++
          (optionalLine (ascii "retry") (e.retryMilliseconds.map fun n => toChars 10 n.toNat) ++
            (lines.flatMap (eventLine (ascii "data")) ++ ascii "\n"))) ∧
      lines ≠ [] ∧ (∀ line ∈ lines, OneLine line ∧ Utf8 line) ∧ [lineFeed].intercalate lines = normalizeLines e.data := by
  unfold encodeSseEvent at h
  split_ifs at h with hrefused
  have haccepted := accepted_of (Bool.eq_false_iff.mpr hrefused)
  split at h
  · cases h
  · rename_i encoded hencoded
    cases h
    simp only [appendEvent, Option.bind_eq_some_iff] at hencoded
    obtain ⟨w₁, h₁, w₂, h₂, w₃, h₃, w₄, h₄, h₅⟩ := hencoded
    obtain rfl := appendOptional_some h₁
    obtain rfl := appendOptional_some h₂
    obtain rfl := appendOptional_some h₃
    obtain ⟨lines, rfl, hne, hall, hjoin⟩ := appendData_some h₄ haccepted.data
    obtain ⟨rfl, hlength⟩ := append_some h₅
    refine ⟨haccepted, hlength, lines, ?_, hne, hall, hjoin⟩
    simp only [List.nil_append, List.append_assoc]

section Read

def optionalField (r : Reader) (name : Bytes) : Option Bytes → Reader
  | none => r
  | some value => r.field name value

lemma feed_optional {name : Bytes} {field : Option Bytes} (hne : name ≠ []) (hcolon : 58 ∉ name) (hname : OneLine name)
    (hvalue : ∀ value, field = some value → OneLine value) (r : Reader) (rest : Bytes) :
    r.feed (optionalLine name field ++ rest) = (optionalField r name field).feed rest := by
  cases field with
  | none => rfl
  | some value => exact Reader.feed_field hne hcolon hname (hvalue value rfl) r rest

lemma isDigit_ascii {b : Byte} (h : isDigit b = true) : b < 0x80 ∧ isLineEnd b = false := by
  simp only [isDigit, Bool.and_eq_true, decide_eq_true_eq] at h
  have hbound : (57 : Byte) < 0x80 := by decide
  refine ⟨UInt8.lt_of_le_of_lt h.2 hbound, ?_⟩
  simp only [isLineEnd, Bool.or_eq_false_iff, decide_eq_false_iff_not]
  constructor
  · rintro rfl
    exact absurd h.1 (by decide)
  · rintro rfl
    exact absurd h.1 (by decide)

lemma field_retry (r : Reader) (n : ℕ) :
    r.field (ascii "retry") (toChars 10 n) = { r with reconnectionTime := some n } := by
  have hdigits : (toChars 10 n).all isDigit = true := List.all_eq_true.mpr fun b hb => isDigit_toChars hb
  have hvalue := foldl_toChars (by decide) (fun b => b.toNat - 48) (fun d hd => (digitChar_decimal d hd).2) n
  unfold Reader.field
  rw [if_neg (by decide), if_neg (by decide), if_neg (by decide), if_pos rfl,
    if_pos ⟨toChars_ne_nil (by decide) n, hdigits⟩, hvalue]

def deliver (r : Reader) (e : SseEvent) : Reader :=
  let id := e.id.getD r.lastEventId
  { r with
    idBuffer := id
    lastEventId := id
    reconnectionTime := (e.retryMilliseconds.map UInt64.toNat).or r.reconnectionTime
    dispatched := r.dispatched ++ [⟨if e.event = [] then ascii "message" else e.event, normalizeLines e.data, id⟩] }

lemma deliver_rested {r : Reader} (h : r.Rested) (e : SseEvent) : (deliver r e).Rested := ⟨h.data, h.type, rfl⟩

lemma feed_encoded {e : SseEvent} {maxBytes : ℕ} {wire : Bytes} (h : encodeSseEvent e maxBytes = .ok wire) {r : Reader}
    (hr : r.Rested) (rest : Bytes) : r.feed (wire ++ rest) = (deliver r e).feed rest := by
  obtain ⟨haccepted, -, lines, rfl, hne, hall, hjoin⟩ := encode_some h
  have hevent : ∀ value, (if e.event = [] then none else some e.event) = some value → OneLine value := by
    intro value heq
    split_ifs at heq
    cases heq
    exact haccepted.event.2
  have hretry : ∀ value, (e.retryMilliseconds.map fun n => toChars 10 n.toNat) = some value → OneLine value := by
    intro value heq
    obtain ⟨n, -, rfl⟩ := Option.map_eq_some_iff.mp heq
    intro b hb
    exact (isDigit_ascii (isDigit_toChars hb)).2
  simp only [List.append_assoc]
  rw [feed_optional (by decide) (by decide) (by decide) hevent,
    feed_optional (by decide) (by decide) (by decide) fun id heq => (haccepted.id id heq).2.1,
    feed_optional (by decide) (by decide) (by decide) hretry, Reader.feed_data fun line hl => (hall line hl).1,
    Reader.feed_blank]
  congr 1
  set r₁ := optionalField r (ascii "event") (if e.event = [] then none else some e.event) with hr₁
  have h₁ : r₁ = { r with type := e.event } := by
    rw [hr₁]
    split_ifs with hempty
    · rw [hempty]
      show r = { r with type := [] }
      rw [← hr.type]
    · rfl
  have h₂ : optionalField r₁ (ascii "id") e.id = { r with type := e.event, idBuffer := e.id.getD r.lastEventId } := by
    rw [h₁]
    cases hid : e.id with
    | none =>
      show ({ r with type := e.event } : Reader) = { r with type := e.event, idBuffer := r.lastEventId }
      rw [hr.id]
    | some id =>
      show Reader.field _ (ascii "id") id = _
      unfold Reader.field
      rw [if_neg (by decide), if_neg (by decide), if_pos rfl, if_neg (haccepted.id id hid).2.2]
      rfl
  rw [h₂]
  have h₃ (r : Reader) : optionalField r (ascii "retry") (e.retryMilliseconds.map fun n => toChars 10 n.toNat) =
      { r with reconnectionTime := (e.retryMilliseconds.map UInt64.toNat).or r.reconnectionTime } := by
    cases e.retryMilliseconds with
    | none => rfl
    | some n => exact field_retry r n.toNat
  have hdata : r.data ++ lines.flatMap (· ++ [lineFeed]) = normalizeLines e.data ++ [lineFeed] := by
    rw [hr.data, flatMap_lineFeed hne, hjoin]
    rfl
  rw [h₃, Reader.dispatch_data hdata]
  simp [deliver, Reader.typeOf, hr.data, hr.type]

end Read

lemma eventLine_utf8 {name value : Bytes} (hname : Utf8 name) (hvalue : Utf8 value) : Utf8 (eventLine name value) :=
  ((hname.append (.ofAll (by decide))).append hvalue).append (.ofAll (by decide))

lemma optionalLine_utf8 {name : Bytes} {field : Option Bytes} (hname : Utf8 name)
    (hvalue : ∀ value, field = some value → Utf8 value) : Utf8 (optionalLine name field) := by
  cases field with
  | none => exact .ofAscii nofun
  | some value => exact eventLine_utf8 hname (hvalue value rfl)

lemma encoded_utf8 {e : SseEvent} {maxBytes : ℕ} {wire : Bytes} (h : encodeSseEvent e maxBytes = .ok wire) : Utf8 wire := by
  obtain ⟨haccepted, -, lines, rfl, -, hall, -⟩ := encode_some h
  have hlines : Utf8 (lines.flatMap (eventLine (ascii "data"))) := by
    clear * - hall
    induction lines with
    | nil => exact .ofAscii nofun
    | cons line lines ih =>
      rw [List.flatMap_cons]
      exact (eventLine_utf8 (.ofAll (by decide)) (hall line List.mem_cons_self).2).append
        (ih fun l hl => hall l (List.mem_cons_of_mem _ hl))
  refine .append ?_ (.append ?_ (.append ?_ (hlines.append (.ofAll (by decide)))))
  · apply optionalLine_utf8 (.ofAll (by decide))
    intro value heq
    split_ifs at heq
    cases heq
    exact haccepted.event.1
  · exact optionalLine_utf8 (.ofAll (by decide)) fun id heq => (haccepted.id id heq).1
  · apply optionalLine_utf8 (.ofAll (by decide))
    intro value heq
    obtain ⟨n, -, rfl⟩ := Option.map_eq_some_iff.mp heq
    exact .ofAscii fun b hb => (isDigit_ascii (isDigit_toChars hb)).1

lemma withoutMark_encoded {e : SseEvent} {maxBytes : ℕ} {wire : Bytes} (h : encodeSseEvent e maxBytes = .ok wire)
    (rest : Bytes) : withoutMark (wire ++ rest) = wire ++ rest := by
  obtain ⟨-, -, lines, rfl, hne, -, -⟩ := encode_some h
  have hfield (name value rest : Bytes) (hname : ∃ b tail, name = b :: tail ∧ b ≠ 0xEF) :
      withoutMark (eventLine name value ++ rest) = eventLine name value ++ rest := by
    obtain ⟨b, tail, rfl, hb⟩ := hname
    show withoutMark (b :: (tail ++ ascii ": " ++ value ++ ascii "\n" ++ rest)) = _
    rw [withoutMark.eq_2]
    · rfl
    · rintro stream heq
      exact hb (List.cons.inj heq).1
  obtain ⟨line, lines, rfl⟩ := List.exists_cons_of_ne_nil hne
  cases hevent : (if e.event = [] then none else some e.event) with
  | some value =>
    simp only [optionalLine, List.append_assoc]
    exact hfield _ _ _ ⟨101, ascii "vent", by decide, by decide⟩
  | none =>
    cases e.id with
    | some id =>
      simp only [optionalLine, List.append_assoc, List.nil_append]
      exact hfield _ _ _ ⟨105, ascii "d", by decide, by decide⟩
    | none =>
      cases e.retryMilliseconds with
      | some n =>
        simp only [optionalLine, Option.map_some, List.append_assoc, List.nil_append]
        exact hfield _ _ _ ⟨114, ascii "etry", by decide, by decide⟩
      | none =>
        simp only [optionalLine, Option.map_none, List.append_assoc, List.nil_append, List.flatMap_cons]
        exact hfield _ _ _ ⟨100, ascii "ata", by decide, by decide⟩

def Encodes (e : SseEvent) (wire : Bytes) : Prop := ∃ maxBytes, encodeSseEvent e maxBytes = .ok wire

lemma feed_events {events : List SseEvent} {wires : List Bytes} (h : List.Forall₂ Encodes events wires) {r : Reader}
    (hr : r.Rested) : r.feed wires.flatten = events.foldl deliver r := by
  induction h generalizing r with
  | nil => rfl
  | cons hencodes _ ih =>
    obtain ⟨_, hencoded⟩ := hencodes
    rw [List.flatten_cons, feed_encoded hencoded hr, List.foldl_cons, ih (deliver_rested hr _)]

lemma read_events {events : List SseEvent} {wires : List Bytes} (h : List.Forall₂ Encodes events wires) :
    EventStream.read wires.flatten = events.foldl deliver {} := by
  have hread : withoutMark wires.flatten = wires.flatten := by
    cases h with
    | nil => rfl
    | cons hencodes _ =>
      obtain ⟨_, hencoded⟩ := hencodes
      exact withoutMark_encoded hencoded _
  rw [EventStream.read, hread]
  exact feed_events h ⟨rfl, rfl, rfl⟩

lemma foldl_deliver (events : List SseEvent) (r : Reader) :
    (events.foldl deliver r).dispatched.map (fun d => (d.type, d.data)) =
      r.dispatched.map (fun d => (d.type, d.data)) ++
        events.map fun e => (if e.event = [] then ascii "message" else e.event, normalizeLines e.data) := by
  induction events generalizing r with
  | nil => simp
  | cons e events ih =>
    rw [List.foldl_cons, ih]
    simp [deliver]

theorem events_read_back :
    (∀ e maxBytes wire, encodeSseEvent e maxBytes = .ok wire → wire.length ≤ maxBytes ∧ Utf8 wire ∧
      ∀ r : Reader, r.Rested → (deliver r e).Rested ∧ ∀ rest, r.feed (wire ++ rest) = (deliver r e).feed rest) ∧
    ∀ events wires, List.Forall₂ Encodes events wires →
      EventStream.read wires.flatten = events.foldl deliver {} ∧
      (EventStream.read wires.flatten).dispatched.map (fun d => (d.type, d.data)) =
        events.map fun e => (if e.event = [] then ascii "message" else e.event, normalizeLines e.data) := by
  refine ⟨?_, ?_⟩
  · intro e maxBytes wire h
    exact ⟨(encode_some h).2.1, encoded_utf8 h, fun r hr => ⟨deliver_rested hr e, feed_encoded h hr⟩⟩
  · intro events wires h
    rw [read_events h]
    exact ⟨rfl, by simpa using foldl_deliver events {}⟩

def tick : SseEvent := ⟨ascii "a\r\n id: b\r", ascii "tick", some [], some 5⟩

def tickWire : Bytes := ascii "event: tick\nid: \nretry: 5\ndata: a\ndata:  id: b\ndata: \n\n"

lemma tick_data : tick.data = [97, 13, 10, 32, 105, 100, 58, 32, 98, 13] := by
  rw [tick, @ascii_eq "a\r\n id: b\r" _ rfl]
  decide +kernel

lemma tick_event : tick.event = [116, 105, 99, 107] := by
  rw [tick, @ascii_eq "tick" _ rfl]
  decide +kernel

lemma encode_tick : encodeSseEvent tick 64 = .ok tickWire := by
  have hvalid (text : Bytes) (h : text.all (· < 0x80) = true) : isValidUtf8 text = true :=
    (isValidUtf8_iff text).mpr (.ofAll h)
  have hrefused : tick.refused = false := by
    unfold refused
    rw [tick_data, tick_event, hvalid [97, 13, 10, 32, 105, 100, 58, 32, 98, 13] (by decide), hvalid [116, 105, 99, 107] (by decide)]
    show (false || hasLineEnd [116, 105, 99, 107] || (!isValidUtf8 [] || hasLineEnd [] || List.contains [] 0)) = false
    rw [hvalid [] (by decide)]
    decide
  have hdata (wire : Bytes) : appendData 64 wire tick.data =
      (appendField 64 wire (ascii "data") (ascii "a")).bind fun wire =>
        (appendField 64 wire (ascii "data") (ascii " id: b")).bind fun wire =>
          appendField 64 wire (ascii "data") [] := by
    have hfirst : findFirst isLineEnd tick.data = some 1 := by
      rw [tick_data]
      decide
    have hsecond : findFirst isLineEnd (tick.data.drop (consumed tick.data 1)) = some 6 := by
      rw [tick_data]
      decide
    rw [appendData_next hfirst]
    congr 1
    funext wire
    rw [appendData_next hsecond]
    congr 1
    funext wire
    exact appendData_last (by decide) 64 wire
  unfold encodeSseEvent appendEvent
  simp only [hdata]
  rw [hrefused, tickWire, @ascii_eq "event: tick\nid: \nretry: 5\ndata: a\ndata:  id: b\ndata: \n\n" _ rfl]
  decide +kernel

theorem events_read_back_tick : EventStream.read (tickWire ++ tickWire) =
    { idBuffer := [], lastEventId := [], reconnectionTime := some 5,
      dispatched := List.replicate 2 ⟨ascii "tick", ascii "a\n id: b\n", []⟩ } := by
  have hall : List.Forall₂ Encodes [tick, tick] [tickWire, tickWire] :=
    .cons ⟨64, encode_tick⟩ (.cons ⟨64, encode_tick⟩ .nil)
  have hread := (events_read_back.2 _ _ hall).1
  have htick : tick = ⟨[97, 13, 10, 32, 105, 100, 58, 32, 98, 13], [116, 105, 99, 107], some [], some 5⟩ :=
    congrArg₂ (SseEvent.mk · · (some []) (some 5)) tick_data tick_event
  rw [List.flatten_cons, List.flatten_singleton, htick] at hread
  rw [hread, @ascii_eq "tick" _ rfl, @ascii_eq "a\n id: b\n" _ rfl]
  decide +kernel

end SseEvent

end ServerCore.Web
