import ServerCore.Core.Bytes

/-! The reading side of an event stream, by the rules of the `text/event-stream` format: lines,
fields, and what an empty line dispatches. -/

namespace ServerCore.Web.EventStream

open ServerCore.Core

def carriageReturn : Byte := 13

def lineFeed : Byte := 10

def isLineEnd (b : Byte) : Bool := b = carriageReturn || b = lineFeed

def linesFrom (line : Bytes) : Bytes → List Bytes
  | [] => []
  | 13 :: 10 :: rest => line :: linesFrom [] rest
  | b :: rest => if isLineEnd b then line :: linesFrom [] rest else linesFrom (line ++ [b]) rest

def normalizeLines : Bytes → Bytes
  | [] => []
  | 13 :: 10 :: rest => lineFeed :: normalizeLines rest
  | b :: rest => (if isLineEnd b then lineFeed else b) :: normalizeLines rest

structure Dispatched where
  type : Bytes
  data : Bytes
  lastEventId : Bytes
  deriving DecidableEq, Repr

structure Reader where
  data : Bytes := []
  type : Bytes := []
  idBuffer : Bytes := []
  lastEventId : Bytes := []
  reconnectionTime : Option ℕ := none
  dispatched : List Dispatched := []
  deriving DecidableEq, Repr

namespace Reader

def field (r : Reader) (name value : Bytes) : Reader :=
  if name = ascii "event" then { r with type := value }
  else if name = ascii "data" then { r with data := r.data ++ value ++ [lineFeed] }
  else if name = ascii "id" then if 0 ∈ value then r else { r with idBuffer := value }
  else if name = ascii "retry" then
    if value ≠ [] ∧ value.all isDigit = true then
      { r with reconnectionTime := some (value.foldl (fun n b => n * 10 + (b.toNat - 48)) 0) }
    else r
  else r

def typeOf (name : Bytes) : Bytes := if name = [] then ascii "message" else name

def dispatch (r : Reader) : Reader :=
  if r.data = [] then { r with lastEventId := r.idBuffer, type := [] }
  else
    let data := if r.data.getLast? = some lineFeed then r.data.dropLast else r.data
    { r with
      data := []
      type := []
      lastEventId := r.idBuffer
      dispatched := r.dispatched ++ [⟨typeOf r.type, data, r.idBuffer⟩] }

def afterColon : Bytes → Bytes
  | 32 :: value => value
  | value => value

def line (r : Reader) (text : Bytes) : Reader :=
  if text = [] then r.dispatch
  else
    match text.findIdx? (· = 58) with
    | some 0 => r
    | some n => r.field (text.take n) (afterColon (text.drop (n + 1)))
    | none => r.field text []

def feed (r : Reader) (text : Bytes) : Reader := (linesFrom [] text).foldl line r

end Reader

def withoutMark : Bytes → Bytes
  | 0xEF :: 0xBB :: 0xBF :: stream => stream
  | stream => stream

def read (stream : Bytes) : Reader := Reader.feed {} (withoutMark stream)

structure Reader.Rested (r : Reader) : Prop where
  data : r.data = []
  type : r.type = []
  id : r.lastEventId = r.idBuffer

def OneLine (text : Bytes) : Prop := ∀ b ∈ text, isLineEnd b = false

instance (text : Bytes) : Decidable (OneLine text) := List.decidableBAll _ text

section Lines

lemma OneLine.append {x y : Bytes} (hx : OneLine x) (hy : OneLine y) : OneLine (x ++ y) := by
  intro b hb
  rcases List.mem_append.mp hb with hb | hb
  · exact hx b hb
  · exact hy b hb

lemma linesFrom_cons {b : Byte} (hb : isLineEnd b = false) (line rest : Bytes) :
    linesFrom line (b :: rest) = linesFrom (line ++ [b]) rest := by
  rw [linesFrom.eq_3, if_neg (by simp [hb])]
  rintro tail rfl
  simp [isLineEnd, carriageReturn] at hb

lemma linesFrom_end (line rest : Bytes) : linesFrom line (lineFeed :: rest) = line :: linesFrom [] rest := by
  rw [linesFrom.eq_3, if_pos (by decide)]
  intro tail heq
  exact absurd heq (by decide)

lemma linesFrom_line {text : Bytes} (h : OneLine text) (line rest : Bytes) :
    linesFrom line (text ++ lineFeed :: rest) = (line ++ text) :: linesFrom [] rest := by
  induction text generalizing line with
  | nil => rw [List.nil_append, List.append_nil, linesFrom_end]
  | cons b text ih =>
    rw [List.cons_append, linesFrom_cons (h b List.mem_cons_self), ih fun c hc => h c (List.mem_cons_of_mem _ hc),
      List.append_assoc]
    rfl

lemma Reader.feed_line {text : Bytes} (h : OneLine text) (r : Reader) (rest : Bytes) :
    r.feed (text ++ lineFeed :: rest) = (r.line text).feed rest := by
  rw [Reader.feed, linesFrom_line h]
  rfl

lemma normalizeLines_cons {b : Byte} (hb : isLineEnd b = false) (rest : Bytes) :
    normalizeLines (b :: rest) = b :: normalizeLines rest := by
  rw [normalizeLines.eq_3, if_neg (by simp [hb])]
  rintro tail rfl
  simp [isLineEnd, carriageReturn] at hb

lemma normalizeLines_line {text : Bytes} (h : OneLine text) (rest : Bytes) :
    normalizeLines (text ++ rest) = text ++ normalizeLines rest := by
  induction text with
  | nil => rfl
  | cons b text ih =>
    rw [List.cons_append, normalizeLines_cons (h b List.mem_cons_self), ih fun c hc => h c (List.mem_cons_of_mem _ hc)]
    rfl

lemma normalizeLines_end {b : Byte} (hb : isLineEnd b = true) (rest : Bytes) :
    normalizeLines (b :: rest) =
      lineFeed :: normalizeLines (if b = carriageReturn ∧ rest.head? = some lineFeed then rest.drop 1 else rest) := by
  by_cases hpair : b = carriageReturn ∧ rest.head? = some lineFeed
  · rw [if_pos hpair]
    obtain ⟨rfl, hhead⟩ := hpair
    cases rest with
    | nil => cases hhead
    | cons c rest =>
      obtain rfl : c = lineFeed := by simpa using hhead
      rfl
  · rw [if_neg hpair, normalizeLines.eq_3, if_pos hb]
    rintro tail rfl rfl
    exact hpair ⟨rfl, rfl⟩

end Lines

section Fields

variable {r : Reader} {name value rest : Bytes}

def eventLine (name value : Bytes) : Bytes := name ++ ascii ": " ++ value ++ ascii "\n"

lemma Reader.line_field (hne : name ≠ []) (hcolon : 58 ∉ name) (r : Reader) (value : Bytes) :
    r.line (name ++ ascii ": " ++ value) = r.field name value := by
  have htext : name ++ ascii ": " ++ value = name ++ 58 :: (32 :: value) := by
    rw [List.append_assoc]
    rfl
  have hsome := findIdx?_mid hcolon (32 :: value)
  rw [htext, Reader.line, if_neg (by simp [hne])]
  cases name with
  | nil => exact absurd rfl hne
  | cons b name =>
    rw [hsome]
    show r.field ((b :: name ++ 58 :: 32 :: value).take (b :: name).length)
      (Reader.afterColon ((b :: name ++ 58 :: 32 :: value).drop ((b :: name).length + 1))) = r.field (b :: name) value
    rw [List.take_left, ← List.drop_drop, List.drop_left]
    rfl

lemma Reader.feed_field (hne : name ≠ []) (hcolon : 58 ∉ name) (hname : OneLine name) (hvalue : OneLine value)
    (r : Reader) (rest : Bytes) : r.feed (eventLine name value ++ rest) = (r.field name value).feed rest := by
  have htext : eventLine name value ++ rest = (name ++ ascii ": " ++ value) ++ lineFeed :: rest := by
    rw [eventLine, List.append_assoc]
    rfl
  have hcolons : OneLine (ascii ": ") := by decide
  rw [htext, Reader.feed_line ((hname.append hcolons).append hvalue), Reader.line_field hne hcolon]

lemma Reader.feed_blank (r : Reader) (rest : Bytes) : r.feed (ascii "\n" ++ rest) = r.dispatch.feed rest :=
  @Reader.feed_line [] (by decide) r rest

lemma Reader.feed_data {lines : List Bytes} (h : ∀ line ∈ lines, OneLine line) (r : Reader) (rest : Bytes) :
    r.feed (lines.flatMap (eventLine (ascii "data")) ++ rest) =
      ({ r with data := r.data ++ lines.flatMap (· ++ [lineFeed]) } : Reader).feed rest := by
  induction lines generalizing r with
  | nil =>
    rw [List.flatMap_nil, List.flatMap_nil, List.append_nil]
    rfl
  | cons line lines ih =>
    have hhead : OneLine line := h line List.mem_cons_self
    have hrest : ∀ l ∈ lines, OneLine l := fun l hl => h l (List.mem_cons_of_mem _ hl)
    rw [List.flatMap_cons, List.append_assoc, Reader.feed_field (by decide) (by decide) (by decide) hhead, ih hrest]
    have hfield : r.field (ascii "data") line = { r with data := r.data ++ line ++ [lineFeed] } := rfl
    rw [hfield, List.flatMap_cons]
    simp only [List.append_assoc]

lemma flatMap_lineFeed {lines : List Bytes} (h : lines ≠ []) :
    lines.flatMap (· ++ [lineFeed]) = [lineFeed].intercalate lines ++ [lineFeed] := by
  induction lines with
  | nil => exact absurd rfl h
  | cons line lines ih =>
    cases lines with
    | nil => simp
    | cons next lines =>
      rw [List.flatMap_cons, ih (by simp), List.intercalate_cons_cons]
      simp only [List.append_assoc]

lemma Reader.dispatch_data {data : Bytes} (h : r.data = data ++ [lineFeed]) :
    r.dispatch =
      { r with
        data := []
        type := []
        lastEventId := r.idBuffer
        dispatched := r.dispatched ++ [⟨typeOf r.type, data, r.idBuffer⟩] } := by
  have hne : r.data ≠ [] := by simp [h]
  rw [Reader.dispatch, if_neg hne]
  dsimp only
  rw [h, List.getLast?_append]
  simp

end Fields

end ServerCore.Web.EventStream
