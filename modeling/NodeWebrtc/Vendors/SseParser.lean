import NodeWebrtc.Lib.Utf8
import Mathlib.Data.List.TakeWhile

/-! # The server-sent-events reader

The parser of a streamed HTTP body keeps the bytes of the line that is not complete, and the fields
of the event that has not ended. What it gives for a body does not depend on how the body is cut.
-/

namespace NodeWebrtc.Vendors.Mistral

open Utf8 (decodeLossy encode decodeLossy_encode)

structure SseEvent where
  name : Option (List Char)
  data : List Char
deriving DecidableEq

structure SseParser where
  buf : List UInt8
  name : Option (List Char)
  data : List (List Char)
deriving DecidableEq

def lf : UInt8 := 10

def stripCr (line : List Char) : List Char :=
  if line.getLast? = some '\r' then line.dropLast else line

/-- `split_once(':')`, or the whole line and an empty value. -/
def splitField (line : List Char) : List Char × List Char :=
  (line.takeWhile (· ≠ ':'), (line.dropWhile (· ≠ ':')).tail)

def stripSpace : List Char → List Char
  | ' ' :: value => value
  | value => value

def dataField : List Char := ['d', 'a', 't', 'a']

def eventField : List Char := ['e', 'v', 'e', 'n', 't']

namespace SseParser

def new : SseParser := ⟨[], none, []⟩

def line (p : SseParser) (line : List Char) : SseParser :=
  if line.head? = some ':' then p
  else
    let field := splitField line
    let value := stripSpace field.2
    if field.1 = dataField then { p with data := p.data ++ [value] }
    else if field.1 = eventField then { p with name := some value }
    else p

def dispatch (p : SseParser) : SseParser × Option SseEvent :=
  if p.data.isEmpty then ({ p with name := none }, none)
  else
    ({ p with name := none, data := [] }, some ⟨p.name, List.intercalate ['\n'] p.data⟩)

def takeLine (p : SseParser) (bytes : List UInt8) : SseParser × List SseEvent :=
  let text := stripCr (decodeLossy bytes)
  if text.isEmpty then (p.dispatch.1, p.dispatch.2.toList) else (p.line text, [])

@[simp] theorem line_buf (p : SseParser) (text : List Char) : (p.line text).buf = p.buf := by
  simp only [line]
  split_ifs <;> rfl

@[simp] theorem dispatch_buf (p : SseParser) : p.dispatch.1.buf = p.buf := by
  rw [dispatch]
  split_ifs <;> rfl

@[simp] theorem takeLine_buf (p : SseParser) (bytes : List UInt8) :
    (p.takeLine bytes).1.buf = p.buf := by
  rw [takeLine]
  split_ifs
  · exact dispatch_buf p
  · exact line_buf p _

theorem length_lt_of_dropWhile {buf rest : List UInt8} {b : UInt8}
    (h : buf.dropWhile (· != lf) = b :: rest) : rest.length < buf.length := by
  have hle := (List.dropWhile_suffix (l := buf) (· != lf)).length_le
  rw [h, List.length_cons] at hle
  exact hle

def drain (p : SseParser) : SseParser × List SseEvent :=
  match _h : p.buf.dropWhile (· != lf) with
  | [] => (p, [])
  | _ :: rest =>
    let r := { p with buf := rest }.takeLine (p.buf.takeWhile (· != lf))
    let later := drain r.1
    (later.1, r.2 ++ later.2)
termination_by p.buf.length
decreasing_by
  rw [takeLine_buf]
  exact length_lt_of_dropWhile _h

def feed (p : SseParser) (bytes : List UInt8) : SseParser × List SseEvent :=
  { p with buf := p.buf ++ bytes }.drain

def finish (p : SseParser) : SseParser × Option SseEvent :=
  if p.buf.isEmpty then p.dispatch
  else
    let text := stripCr (decodeLossy p.buf)
    let p := { p with buf := [] }
    (if text.isEmpty then p else p.line text).dispatch

/-- The events of the pieces of a body, and of its end. -/
def read (p : SseParser) : List (List UInt8) → List SseEvent
  | [] => p.finish.2.toList
  | piece :: pieces => (p.feed piece).2 ++ (p.feed piece).1.read pieces

end SseParser

/-! ## One shot -/

/-- The value of a field in a line; a comment line has none. -/
def fieldValue (name line : List Char) : Option (List Char) :=
  if line.head? ≠ some ':' ∧ (splitField line).1 = name then
    some (stripSpace (splitField line).2)
  else none

/-- The event of some lines: its last name, and its data joined. Without data there is none. -/
def eventOf (lines : List (List Char)) : Option SseEvent :=
  if (lines.filterMap (fieldValue dataField)).isEmpty then none
  else some ⟨(lines.filterMap (fieldValue eventField)).getLast?,
    List.intercalate ['\n'] (lines.filterMap (fieldValue dataField))⟩

def eventsOf (lines : List (List Char)) : List SseEvent :=
  (lines.splitOnP List.isEmpty).filterMap eventOf

/-- The lines of a body, without the CR of a CRLF. -/
def bodyLines (body : List UInt8) : List (List Char) :=
  (body.splitOn lf).map fun bytes => stripCr (decodeLossy bytes)

/-- The lines of a text, without the CR of a CRLF. -/
def textLines (text : List Char) : List (List Char) := (text.splitOn '\n').map stripCr

theorem eventsOf_blank {seen : List (List Char)} (hseen : ∀ line ∈ seen, line.isEmpty = false)
    (lines : List (List Char)) :
    eventsOf (seen ++ [] :: lines) = (eventOf seen).toList ++ eventsOf lines := by
  rw [eventsOf, eventsOf, List.splitOnP_append_cons _ _ rfl, List.splitOnP_eq_singleton hseen,
    List.filterMap_append]
  cases h : eventOf seen <;> simp [h]

theorem eventsOf_last {seen : List (List Char)} (hseen : ∀ line ∈ seen, line.isEmpty = false) :
    eventsOf seen = (eventOf seen).toList := by
  rw [eventsOf, List.splitOnP_eq_singleton hseen]
  cases h : eventOf seen <;> simp [h]

theorem bodyLines_open {body : List UInt8} (h : lf ∉ body) :
    bodyLines body = [stripCr (decodeLossy body)] := by
  rw [bodyLines, List.splitOn_eq_singleton h]
  rfl

theorem bodyLines_line {line : List UInt8} (h : lf ∉ line) (after : List UInt8) :
    bodyLines (line ++ lf :: after) = stripCr (decodeLossy line) :: bodyLines after := by
  rw [bodyLines, List.splitOn_append_cons_self_of_not_mem h]
  rfl

/-! ## Any pieces -/

namespace SseParser

/-- The parser has read the lines `seen` of the event that goes on, none of them blank. -/
structure Holds (p : SseParser) (seen : List (List Char)) : Prop where
  full : ∀ line ∈ seen, line.isEmpty = false
  name : p.name = (seen.filterMap (fieldValue eventField)).getLast?
  data : p.data = seen.filterMap (fieldValue dataField)

variable {p : SseParser} {seen : List (List Char)}

theorem holds_new : new.Holds [] := ⟨nofun, rfl, rfl⟩

theorem Holds.buf (h : p.Holds seen) (buf : List UInt8) : { p with buf := buf }.Holds seen :=
  ⟨h.full, h.name, h.data⟩

theorem line_name (p : SseParser) (text : List Char) :
    (p.line text).name = (fieldValue eventField text).or p.name := by
  have hnames : eventField ≠ dataField := by decide
  simp only [line, fieldValue]
  split_ifs <;> simp_all

theorem line_data (p : SseParser) (text : List Char) :
    (p.line text).data = p.data ++ (fieldValue dataField text).toList := by
  have hnames : eventField ≠ dataField := by decide
  simp only [line, fieldValue]
  split_ifs <;> simp_all

theorem Holds.line (h : p.Holds seen) {text : List Char} (htext : text.isEmpty = false) :
    (p.line text).Holds (seen ++ [text]) where
  full := by
    intro line hmem
    rcases List.mem_append.mp hmem with hseen | hlast
    · exact h.full line hseen
    · rw [List.mem_singleton.mp hlast, htext]
  name := by
    rw [line_name, h.name, List.filterMap_append, List.getLast?_append]
    cases hvalue : fieldValue eventField text <;> simp [hvalue]
  data := by
    rw [line_data, h.data, List.filterMap_append]
    cases hvalue : fieldValue dataField text <;> simp [hvalue]

theorem Holds.dispatch (h : p.Holds seen) :
    p.dispatch.1.Holds [] ∧ p.dispatch.2 = eventOf seen := by
  rw [SseParser.dispatch, eventOf, ← h.data, ← h.name]
  split_ifs with hdata
  · exact ⟨⟨nofun, rfl, List.isEmpty_iff.mp hdata⟩, rfl⟩
  · exact ⟨⟨nofun, rfl, rfl⟩, rfl⟩

/-- What a parser still gives when nothing more comes. -/
def rest (p : SseParser) : List SseEvent := p.drain.2 ++ p.drain.1.finish.2.toList

theorem finish_eq (h : p.Holds seen) :
    p.finish.2.toList = eventsOf (seen ++ [stripCr (decodeLossy p.buf)]) := by
  have hblank : eventsOf (seen ++ [[]]) = (eventOf seen).toList := by
    rw [eventsOf_blank h.full, eventsOf_last (fun _ hmem => by cases hmem)]
    exact List.append_nil _
  rw [finish]
  split_ifs with hbuf
  · rw [h.dispatch.2, List.isEmpty_iff.mp hbuf]
    exact hblank.symm
  · dsimp only
    split_ifs with htext
    · rw [(h.buf []).dispatch.2, List.isEmpty_iff.mp htext, hblank]
    · have hline := (h.buf []).line (Bool.eq_false_iff.mpr htext)
      rw [hline.dispatch.2, eventsOf_last hline.full]

theorem drain_open (h : lf ∉ p.buf) : p.drain = (p, []) := by
  have hnone : p.buf.dropWhile (· != lf) = [] :=
    List.dropWhile_eq_nil_iff.mpr fun b hb => bne_iff_ne.mpr fun heq => h (heq ▸ hb)
  rw [drain]
  split
  · rfl
  next hsome =>
    rw [hnone] at hsome
    cases hsome

theorem drain_line {line after : List UInt8} (h : lf ∉ line) (hbuf : p.buf = line ++ lf :: after) :
    p.drain =
      let r := { p with buf := after }.takeLine line
      (r.1.drain.1, r.2 ++ r.1.drain.2) := by
  have hline : ∀ b ∈ line, (b != lf) = true := fun b hb => bne_iff_ne.mpr fun heq => h (heq ▸ hb)
  have hdrop : p.buf.dropWhile (· != lf) = lf :: after := by
    rw [hbuf, List.dropWhile_append_of_pos hline]
    rfl
  have htake : p.buf.takeWhile (· != lf) = line := by
    rw [hbuf, List.takeWhile_append_of_pos hline]
    exact List.append_nil line
  rw [drain]
  split
  next hnone =>
    rw [hdrop] at hnone
    cases hnone
  next b rest hsome =>
    obtain ⟨-, rfl⟩ := List.cons.inj (hdrop.symm.trans hsome)
    rw [htake]

theorem rest_eq (h : p.Holds seen) : p.rest = eventsOf (seen ++ bodyLines p.buf) := by
  induction hlen : p.buf.length using Nat.strongRecOn generalizing p seen with
  | ind n ih =>
    by_cases hlf : lf ∈ p.buf
    · obtain ⟨line, after, hbuf, hline⟩ := List.eq_append_cons_of_mem hlf
      have hlt : after.length < n := by
        rw [← hlen, hbuf, List.length_append, List.length_cons]
        omega
      rw [rest, drain_line hline hbuf, hbuf, bodyLines_line hline, takeLine]
      split_ifs with htext
      · have hd := (h.buf after).dispatch
        have hrest := ih _ hlt hd.1 (by rw [dispatch_buf])
        rw [dispatch_buf, List.nil_append, rest] at hrest
        rw [List.isEmpty_iff.mp htext, eventsOf_blank h.full, ← hd.2, ← hrest, List.append_assoc]
      · have hl := (h.buf after).line (Bool.eq_false_iff.mpr htext)
        have hrest := ih _ hlt hl (by rw [line_buf])
        rw [line_buf, List.append_assoc, rest] at hrest
        exact hrest
    · rw [rest, drain_open hlf, bodyLines_open hlf]
      exact finish_eq h

theorem takeLine_eq (p : SseParser) (buf line : List UInt8) :
    { p with buf := buf }.takeLine line =
      ({ (p.takeLine line).1 with buf := buf }, (p.takeLine line).2) := by
  simp only [takeLine, SseParser.dispatch, SseParser.line]
  split_ifs <;> rfl

theorem rest_drain (p : SseParser) :
    lf ∉ p.drain.1.buf ∧ ∀ more, { p with buf := p.buf ++ more }.rest =
      p.drain.2 ++ { p.drain.1 with buf := p.drain.1.buf ++ more }.rest := by
  induction hlen : p.buf.length using Nat.strongRecOn generalizing p with
  | ind n ih =>
    by_cases hlf : lf ∈ p.buf
    · obtain ⟨line, after, hbuf, hline⟩ := List.eq_append_cons_of_mem hlf
      have hlt : after.length < n := by
        rw [← hlen, hbuf, List.length_append, List.length_cons]
        omega
      obtain ⟨hopen, hgoes⟩ := ih _ hlt ({ p with buf := after }.takeLine line).1
        (by rw [takeLine_buf])
      rw [drain_line hline hbuf]
      refine ⟨hopen, fun more => ?_⟩
      have hmore : p.buf ++ more = line ++ lf :: (after ++ more) := by
        rw [hbuf, List.append_assoc]
        rfl
      have hlater := hgoes more
      have htake := takeLine_eq { p with buf := after } (after ++ more) line
      rw [takeLine_buf] at hlater
      rw [rest, drain_line hline hmore]
      rw [htake, List.append_assoc, List.append_assoc, ← hlater]
      rfl
    · rw [drain_open hlf]
      exact ⟨hlf, fun more => rfl⟩

theorem read_eq (pieces : List (List UInt8)) (hp : lf ∉ p.buf) :
    p.read pieces = { p with buf := p.buf ++ pieces.flatten }.rest := by
  induction pieces generalizing p with
  | nil =>
    rw [List.flatten_nil, List.append_nil, rest, drain_open hp]
    rfl
  | cons piece pieces ih =>
    obtain ⟨hopen, hgoes⟩ := rest_drain { p with buf := p.buf ++ piece }
    rw [read, feed, ih hopen, ← hgoes, List.flatten_cons, List.append_assoc]

end SseParser

theorem encode_append (text text' : List Char) : encode (text ++ text') = encode text ++ encode text' :=
  List.flatMap_append

theorem lf_mem_encode {text : List Char} (h : lf ∈ encode text) : '\n' ∈ text := by
  obtain ⟨c, hc, hlf⟩ := List.mem_flatMap.mp h
  obtain ⟨b, tails, hbytes, -, htails⟩ := Utf8.encodeChar_cases c
  rw [hbytes] at hlf
  rcases List.mem_cons.mp hlf with rfl | htail
  · have hdecode := Utf8.decodeFrom_encodeChar c []
    rw [hbytes] at hdecode
    exact (List.cons.inj hdecode).1 ▸ hc
  · exact absurd (htails lf htail) (by decide)

theorem bodyLines_encode (text : List Char) : bodyLines (encode text) = textLines text := by
  induction hlen : text.length using Nat.strongRecOn generalizing text with
  | ind n ih =>
    by_cases hlf : '\n' ∈ text
    · obtain ⟨line, after, htext, hline⟩ := List.eq_append_cons_of_mem hlf
      have hlt : after.length < n := by
        rw [← hlen, htext, List.length_append, List.length_cons]
        omega
      have hbytes : encode text = encode line ++ lf :: encode after := by
        rw [htext, encode_append]
        rfl
      rw [hbytes, bodyLines_line fun h => hline (lf_mem_encode h), decodeLossy_encode, ih _ hlt _ rfl,
        htext, textLines, textLines, List.splitOn_append_cons_self_of_not_mem hline]
      rfl
    · rw [bodyLines_open fun h => hlf (lf_mem_encode h), decodeLossy_encode, textLines,
        List.splitOn_eq_singleton hlf]
      rfl

/-- However a body is cut, its events are those of its lines, and the lines of UTF-8 are those of
its text. -/
theorem SseParser.read_pieces (pieces : List (List UInt8)) :
    SseParser.new.read pieces = eventsOf (bodyLines pieces.flatten) ∧
      ∀ text, bodyLines (encode text) = textLines text := by
  refine ⟨?_, bodyLines_encode⟩
  rw [SseParser.read_eq pieces List.not_mem_nil, SseParser.rest_eq (SseParser.holds_new.buf _)]
  rfl

end NodeWebrtc.Vendors.Mistral
