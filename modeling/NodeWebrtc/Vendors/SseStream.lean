import NodeWebrtc.Lib.Lines
import NodeWebrtc.Lib.Trim
import NodeWebrtc.Lib.Utf8
import NodeWebrtc.Speech.SttActor

/-! # Transcripts streamed as server-sent events

The answer to an upload arrives in chunks of bytes. Each chunk is decoded by itself, its text goes
to a buffer, and every event that is complete there is read. `serde_json` is a parameter.
-/

namespace NodeWebrtc.OpenAi

open SttActor (SttTranscript)
open Text
open Utf8 (decodeLossy encode Aligned)

/-- A parsed event, with the fields that are read of it as strings. -/
structure SseEvent where
  kind : Option String
  delta : Option (List Char)
  text : Option (List Char)
  transcript : Option (List Char)
  deriving DecidableEq

/-- `push_file_sse_event`: what is sent for an event. -/
def pushFileSseEvent (event : SseEvent) : List SttTranscript :=
  if event.kind = some "transcript.text.delta" then
    match event.delta with
    | some delta =>
      let text := trimChars delta
      if text.isEmpty then [] else [.partialText (String.ofList text)]
    | none => []
  else if event.kind = some "transcript.text.done" then
    let text := trimChars ((event.text.or event.transcript).getD [])
    if text.isEmpty then [] else [.finalText (String.ofList text)]
  else []

def trimDataMarks : List Char → List Char
  | 'd' :: 'a' :: 't' :: 'a' :: ':' :: rest => trimDataMarks rest
  | line => line

def lfLf : List Char := ['\n', '\n']
def crlfCrlf : List Char := ['\r', '\n', '\r', '\n']

def findSeparator (buffer : List Char) : Option Nat := (find lfLf buffer).or (find crlfCrlf buffer)

def sepLen (buffer : List Char) (pos : Nat) : Nat :=
  if (buffer.drop pos).take 4 = crlfCrlf then 4 else 2

def separators : List (List Char) := [lfLf, crlfCrlf]

theorem findSeparator_eq_some {buffer : List Char} {pos : Nat} (h : findSeparator buffer = some pos) :
    ∃ separator ∈ separators,
      buffer = buffer.take pos ++ (separator ++ buffer.drop (pos + sepLen buffer pos)) := by
  have hfound : ∀ separator, find separator buffer = some pos →
      (∀ after, sepLen (separator ++ after) 0 = separator.length) →
      buffer = buffer.take pos ++ (separator ++ buffer.drop (pos + sepLen buffer pos)) := by
    intro separator hfind hlen
    obtain ⟨before, after, hbuffer, rfl⟩ := find_eq_some hfind
    have hdrop : buffer.drop before.length = separator ++ after := by rw [hbuffer, List.drop_left]
    have hsep : sepLen buffer before.length = separator.length := by
      rw [← hlen after, sepLen, sepLen, hdrop, List.drop_zero]
    rw [hsep, ← List.drop_drop, hdrop, List.drop_left, hbuffer, List.take_left]
  rcases Option.or_eq_some_iff.mp h with hlf | ⟨-, hcrlf⟩
  · exact ⟨lfLf, by decide, hfound lfLf hlf fun after => if_neg nofun⟩
  · exact ⟨crlfCrlf, by decide, hfound crlfCrlf hcrlf fun after => if_pos rfl⟩

theorem separators_break : ∀ separator ∈ separators, IsBreak separator := by
  intro separator hmem
  rcases List.mem_pair.mp hmem with rfl | rfl
  · exact ⟨List.all_eq_true.mp rfl, ['\n'], rfl⟩
  · exact ⟨List.all_eq_true.mp rfl, ['\r', '\n', '\r'], rfl⟩

theorem length_drop_lt {buffer : List Char} {pos : Nat} (h : findSeparator buffer = some pos) :
    (buffer.drop (pos + sepLen buffer pos)).length < buffer.length := by
  obtain ⟨separator, hmem, hbuffer⟩ := findSeparator_eq_some h
  obtain ⟨-, before, rfl⟩ := separators_break separator hmem
  have hlen := congrArg List.length hbuffer
  simp only [List.length_append, List.length_singleton] at hlen
  omega

section

variable (fromStr : List Char → Option SseEvent)

def readLine (line : List Char) : List SttTranscript :=
  let line := trimChars line
  if ! ['d', 'a', 't', 'a', ':'].isPrefixOf line then []
  else
    let payload := trimChars (trimDataMarks line)
    if payload.isEmpty || payload = ['[', 'D', 'O', 'N', 'E', ']'] then []
    else ((fromStr payload).map pushFileSseEvent).getD []

/-- The loop over complete events: what is sent, and the buffer that is left. -/
def drainEvents (buffer : List Char) : List SttTranscript × List Char :=
  match _h : findSeparator buffer with
  | some pos =>
    let frame := buffer.take pos
    let rest := drainEvents (buffer.drop (pos + sepLen buffer pos))
    ((lines frame).flatMap (readLine fromStr) ++ rest.1, rest.2)
  | none => ([], buffer)
termination_by buffer.length
decreasing_by exact length_drop_lt _h

/-- The loop over the chunks of the answer: all that is sent, and how it returns. -/
def readChunks (buffer : List Char) :
    List (Except String (List UInt8)) → List SttTranscript × Except String Unit
  | [] => ([], .ok ())
  | .error message :: _ => ([], .error message)
  | .ok chunk :: chunks =>
    let drained := drainEvents fromStr (buffer ++ decodeLossy chunk)
    let rest := readChunks drained.2 chunks
    (drained.1 ++ rest.1, rest.2)

def httpTranscribeSse (stream : List (Except String (List UInt8))) :
    List SttTranscript × Except String Unit :=
  readChunks fromStr [] stream

/-! ## Any chunks -/

/-- A line is trimmed before anything of it is read. -/
def lineReader : LineReader SttTranscript where
  read := readLine fromStr
  read_nil := rfl
  read_append line white h := by rw [readLine, readLine, trimChars_append_white line h]

theorem drainEvents_cut (buffer : List Char) : ∃ closed,
    Cut separators buffer closed (drainEvents fromStr buffer).2 ∧
      (drainEvents fromStr buffer).1 = (lineReader fromStr).readText closed := by
  induction hlen : buffer.length using Nat.strongRecOn generalizing buffer with
  | ind n ih =>
    rw [drainEvents]
    split
    next pos hpos =>
      obtain ⟨separator, hmem, hbuffer⟩ := findSeparator_eq_some hpos
      obtain ⟨closed, hcut, hread⟩ := ih _ (hlen ▸ length_drop_lt hpos) _ rfl
      generalize buffer.drop (pos + sepLen buffer pos) = after at hbuffer hcut hread ⊢
      generalize buffer.take pos = frame at hbuffer ⊢
      have hfirst : Cut separators (frame ++ separator) (frame ++ separator) [] :=
        ⟨(List.append_nil _).symm, .inr ⟨separator, hmem, List.suffix_append _ _⟩, by decide⟩
      have hboth : Cut separators (frame ++ separator ++ after) (frame ++ separator ++ closed) _ :=
        hfirst.append hcut
      rw [List.append_assoc, ← hbuffer] at hboth
      refine ⟨_, hboth, ?_⟩
      rw [hfirst.readText_append _ separators_break, ← hread]
      congr 1
      have hwhite := (separators_break separator hmem).1
      rw [LineReader.readText_eq, LineReader.readFrom_append_white _ hwhite,
        ← LineReader.readText_eq]
      rfl
    next hnone =>
      obtain ⟨hlf, hcrlf⟩ := Option.or_eq_none_iff.mp hnone
      refine ⟨[], ⟨rfl, .inl rfl, fun separator hmem => ?_⟩, rfl⟩
      rcases List.mem_pair.mp hmem with rfl | rfl
      · exact find_eq_none hlf
      · exact find_eq_none hcrlf

theorem readChunks_cut {text closed buffer : List Char} (h : Cut separators text closed buffer)
    (chunks : List (List UInt8)) : ∃ closed' rest,
    Cut separators (text ++ chunks.flatMap decodeLossy) closed' rest ∧
      (lineReader fromStr).readText closed ++ (readChunks fromStr buffer (chunks.map .ok)).1 =
        (lineReader fromStr).readText closed' ∧
      (readChunks fromStr buffer (chunks.map .ok)).2 = .ok () := by
  induction chunks generalizing text closed buffer with
  | nil =>
    refine ⟨closed, buffer, ?_, List.append_nil _, rfl⟩
    rwa [List.flatMap_nil, List.append_nil]
  | cons chunk chunks ih =>
    obtain ⟨more, hcut, hread⟩ := drainEvents_cut fromStr (buffer ++ decodeLossy chunk)
    obtain ⟨closed', rest, hrest, hout, hok⟩ := ih (h.append hcut)
    refine ⟨closed', rest, ?_, ?_, hok⟩
    · rwa [List.flatMap_cons, ← List.append_assoc]
    · rw [← hout, h.readText_append _ separators_break, ← hread, List.append_assoc]
      rfl

theorem httpTranscribeSse_congr {chunks chunks' : List (List UInt8)}
    (h : chunks.flatMap decodeLossy = chunks'.flatMap decodeLossy) :
    httpTranscribeSse fromStr (chunks.map .ok) = httpTranscribeSse fromStr (chunks'.map .ok) := by
  have hstart : Cut separators [] [] [] := ⟨rfl, .inl rfl, by decide⟩
  obtain ⟨closed, rest, hcut, hread, hok⟩ := readChunks_cut fromStr hstart chunks
  obtain ⟨closed', rest', hcut', hread', hok'⟩ := readChunks_cut fromStr hstart chunks'
  rw [← h] at hcut'
  have hsame := hcut.readText_congr (lineReader fromStr) hcut' separators_break
  exact Prod.ext (hread.trans (hsame.trans hread'.symm)) (hok.trans hok'.symm)

/-- A text that arrives in chunks gives the transcripts of the whole, with every character intact,
exactly when no chunk starts inside a character. -/
theorem httpTranscribeSse_chunks_iff (text : List Char) (chunks : List (List UInt8))
    (h : encode text = chunks.flatten) :
    (httpTranscribeSse fromStr (chunks.map .ok) = httpTranscribeSse fromStr [.ok (encode text)] ∧
        chunks.flatMap decodeLossy = text) ↔ ∀ chunk ∈ chunks, Aligned chunk := by
  rw [← Utf8.flatMap_decodeLossy_iff h]
  refine ⟨And.right, fun hintact => ⟨?_, hintact⟩⟩
  have hsame : chunks.flatMap decodeLossy = [encode text].flatMap decodeLossy := by
    rw [hintact, List.flatMap_singleton, Utf8.decodeLossy_encode]
  exact httpTranscribeSse_congr fromStr hsame

end

/-! ## A delta cut inside its character -/

/-- The object around a delta that has nothing to escape. -/
def deltaStart : List Char := "\x7b\"type\":\"transcript.text.delta\",\"delta\":\"".toList

def deltaFromStr (payload : List Char) : Option SseEvent :=
  if deltaStart.isPrefixOf payload then
    some ⟨some "transcript.text.delta", some ((payload.drop deltaStart.length).dropLast.dropLast), none,
      none⟩
  else none

def deltaEvent : List Char :=
  "data: ".toList ++ deltaStart ++ ['é'] ++ "\"\x7d\n\n".toList

theorem httpTranscribeSse_chunks_iff_delta :
    (httpTranscribeSse deltaFromStr ([(encode deltaEvent).take 4, (encode deltaEvent).drop 4].map .ok) =
        httpTranscribeSse deltaFromStr [.ok (encode deltaEvent)] ∧
      [(encode deltaEvent).take 4, (encode deltaEvent).drop 4].flatMap decodeLossy = deltaEvent) ↔
    ∀ chunk ∈ [(encode deltaEvent).take 4, (encode deltaEvent).drop 4], Aligned chunk :=
  httpTranscribeSse_chunks_iff deltaFromStr deltaEvent _ (by simp)

/-- With its character cut in two the delta has two replacement characters. -/
theorem not_httpTranscribeSse_chunks :
    (httpTranscribeSse deltaFromStr
        ([(encode deltaEvent).take 48, (encode deltaEvent).drop 48].map .ok)).1 =
      [.partialText "\uFFFD\uFFFD"] ∧
    (httpTranscribeSse deltaFromStr [.ok (encode deltaEvent)]).1 = [.partialText "é"] := by
  decide +kernel

end NodeWebrtc.OpenAi
