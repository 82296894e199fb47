import NodeWebrtc.Speech.Pcm
import NodeWebrtc.Vendors.TtsStreams

/-! # Retries and fallbacks of a synthesis

A synthesis may start over: on a fresh socket when a reused one is dead, on the REST body when the
socket failed, and on the full body when a stream gave nothing. Whether the sink takes a chunk is an
input, so it may be cancelled or dropped at any point.
-/

namespace NodeWebrtc.Vendors

open Speech (MonoToStereo48k)

/-- One attempt: the audio it read, what it returns for it, and the chunks that the sink took. -/
structure Attempt where
  audio : List UInt8
  chunks : List TtsAudioChunk
  accepted : List TtsAudioChunk
deriving DecidableEq, Repr

def Attempt.pcm (a : Attempt) : List UInt8 := a.accepted.flatMap TtsAudioChunk.pcm

/-- A synthesis with its attempts in the order they were started. -/
structure Spoken where
  attempts : List Attempt
  result : Except String (List TtsAudioChunk)

/-- The chunks of `send` that the sink took. -/
def taken : List TtsAudioChunk → List Bool → List TtsAudioChunk
  | chunk :: chunks, takes :: rest =>
    if takes then chunk :: taken chunks rest else taken chunks rest
  | _, _ => []

/-! ## Sockets -/

/-- What `run_utterance` has: `emittedAny` and `received` are its flags. -/
structure Utterance where
  pieces : List (List UInt8)
  accepted : List TtsAudioChunk
  emittedAny : Bool
  received : Bool
deriving DecidableEq, Repr

inductive UttEnd where
  | done
  | cancelled
  /-- `dead` when the socket was closed or broken. -/
  | failed (message : String) (dead : Bool)
deriving DecidableEq, Repr

def Utterance.empty : Utterance := ⟨[], [], false, false⟩

/-- The part of a round that takes audio; `takes` is what `send` returns. -/
def Utterance.take (sink : Bool) (u : Utterance) (bytes : List UInt8) (takes : Bool) : Utterance where
  pieces := u.pieces ++ [bytes]
  accepted := u.accepted ++ if sink && takes then [pcmChunkFromMono bytes] else []
  emittedAny := u.emittedAny || sink && takes
  received := u.received || !bytes.isEmpty

def Utterance.attempt (u : Utterance) : Attempt :=
  ⟨u.pieces.flatten, [pcmChunkFromMono u.pieces.flatten], u.accepted⟩

def WsRead.dead {μ : Type} : WsRead μ → Bool
  | .close _ | .failed _ => true
  | _ => false

/-- What one attempt on a socket meets: an error of its requests, with whether the socket is dead,
else the reads, each with what the sink says to its chunk. One vendor has contexts. -/
structure SocketReads (μ : Type) where
  contextId : String
  sendError : Option (String × Bool)
  reads : List (WsRead μ × Bool)

variable {μ : Type}

/-- The read loop with its flags. -/
def readFlags (vendor closed : String) (item : WsRead μ → WsItem) (sink : Bool) :
    Utterance → List (WsRead μ × Bool) → Utterance × UttEnd
  | u, [] => (u, .failed closed true)
  | u, (read, takes) :: reads =>
    match item read with
    | .audio bytes => readFlags vendor closed item sink (u.take sink bytes takes) reads
    | .skip => readFlags vendor closed item sink u reads
    | .finished => (u, .done)
    | .failed message => (u, .failed message read.dead)
    | .timedOut =>
      let mono := if u.received then u.pieces.flatten else []
      (u, .failed (timeoutMessage (vendor ++ " ws") mono) false)
    | .cancelled => (u, .cancelled)

/-- What a synthesis over the socket meets. -/
structure SocketRun (μ : Type) where
  /-- The model, the key or the address is refused before any socket. -/
  early : Option String
  reused : Bool
  opened : Except String Unit
  first : SocketReads μ
  reopened : Except String Unit
  second : SocketReads μ

/-- `synthesize_websocket`: a dead socket that was reused is replaced once, when `retries` says so.
An error comes with the flag `emitted_any`. -/
def synthesizeSocket (run : SocketReads μ → Utterance × UttEnd) (retries : Utterance → Bool)
    (r : SocketRun μ) : List Attempt × Except (String × Bool) (List TtsAudioChunk) :=
  let finish (u : Utterance) (e : UttEnd) : Except (String × Bool) (List TtsAudioChunk) :=
    match e with
    | .failed message _ => .error (message, u.emittedAny)
    | _ => .ok u.attempt.chunks
  match r.early, r.reused, r.opened with
  | some error, _, _ => ([], .error (error, false))
  | none, false, .error error => ([], .error (error, false))
  | none, reused, _ =>
    let first := run r.first
    match first.2 with
    | .failed message dead =>
      if reused && dead && retries first.1 then
        match r.reopened with
        | .error error => ([first.1.attempt], .error (error, false))
        | .ok _ =>
          ([first.1.attempt, (run r.second).1.attempt], finish (run r.second).1 (run r.second).2)
      else ([first.1.attempt], .error (message, first.1.emittedAny))
    | e => ([first.1.attempt], finish first.1 e)

/-- A REST request fails before its body, or gives reads. -/
structure RestReads where
  early : Option String
  reads : List BodyRead
  takes : List Bool

/-- The REST attempt of a client with its read loop. -/
def RestReads.speak (r : RestReads) (read : BodyAudio × LoopEnd) (synthesis : Synthesis) : Spoken :=
  match r.early with
  | some error => ⟨[⟨[], [], []⟩], .error error⟩
  | none =>
    ⟨[⟨read.1.mono, [pcmChunkFromMono read.1.mono], taken synthesis.sent r.takes⟩],
      synthesis.result⟩

namespace Cartesia

def runSocket (sink : Bool) (r : SocketReads Message) : Utterance × UttEnd :=
  match r.sendError with
  | some (message, dead) => (.empty, .failed message dead)
  | none => readFlags "cartesia" closedBeforeDone (item r.contextId) sink .empty r.reads

def rest (sink : Bool) (r : RestReads) : Spoken :=
  r.speak (readBody "cartesia" sink none .empty r.reads) (synthesizeText sink r.reads)

/-- `synthesize_progressive`; the socket is used when `socket` is there. -/
def speak (sink : Bool) (voiceError : Option String)
    (socket : Option (SocketRun Message)) (r : RestReads) : Spoken :=
  match voiceError, socket with
  | some error, _ => ⟨[], .error error⟩
  | none, none => rest sink r
  | none, some s =>
    let w := synthesizeSocket (runSocket sink) (fun u => !u.received && !u.emittedAny) s
    match w.2 with
    | .ok chunks => ⟨w.1, .ok chunks⟩
    | .error (error, true) => ⟨w.1, .error error⟩
    | .error (_, false) => ⟨w.1 ++ (rest sink r).attempts, (rest sink r).result⟩

end Cartesia

namespace Deepgram

/-- `run_utterance`; without audio its end is an error on a socket that is not dead. -/
def runSocket (sink : Bool) (r : SocketReads Message) : Utterance × UttEnd :=
  match r.sendError with
  | some (message, dead) => (.empty, .failed message dead)
  | none =>
    let u := readFlags "deepgram" closedBeforeFlushed item sink .empty r.reads
    if u.1.pieces.flatten.isEmpty then
      match u.2 with
      | .done => (u.1, .failed "Deepgram speak websocket returned no audio" false)
      | .cancelled => (u.1, .failed "deepgram ws cancelled before audio" false)
      | e => (u.1, e)
    else u

def rest (sink : Bool) (r : RestReads) : Spoken :=
  r.speak (readBody "deepgram" sink (some ⟨[], false⟩) .empty r.reads) (synthesizeRest sink r.reads)

/-- `synthesize_progressive`; there is no fallback. -/
def speak (sink : Bool) (socket : Option (SocketRun Message)) (r : RestReads) : Spoken :=
  match socket with
  | none => rest sink r
  | some s =>
    let w := synthesizeSocket (runSocket sink) (fun u => !u.received) s
    ⟨w.1, w.2.mapError Prod.fst⟩

end Deepgram

namespace OpenAi

def OPENAI_TTS_PCM_SAMPLE_RATE : Nat := 24000

def chunkOf (pcm : List UInt8) : TtsAudioChunk := ⟨pcm, max (asU32 (pcm.length / 192)) 1⟩

structure StreamAudio where
  pieces : List (List UInt8)
  accepted : List TtsAudioChunk
  forward : Bool
deriving DecidableEq, Repr

/-- One piece, sent while the sink takes what it gets. -/
def StreamAudio.take (sink : Bool) (s : StreamAudio) (pcm : List UInt8) (takes : Bool) :
    StreamAudio :=
  if pcm.isEmpty then s
  else
    ⟨s.pieces ++ [pcm], s.accepted ++ (if s.forward && sink && takes then [chunkOf pcm] else []),
      s.forward && (!sink || takes)⟩

def StreamAudio.attempt (s : StreamAudio) : Attempt :=
  ⟨s.pieces.flatten, s.pieces.map chunkOf, s.accepted⟩

/-- What `read_pcm_stream` meets. `answered` is a success that is not JSON; `isCancelled` is the
sink behind the stream. -/
structure StreamRun where
  early : Option String
  answered : Bool
  reads : List (Except String (List UInt8) × Bool)
  isCancelled : Bool
  takesTail : Bool

inductive StreamAttempt where
  | useFullBody
  | failed (error : String)

def readStream (sink : Bool) : MonoToStereo48k → StreamAudio →
    List (Except String (List UInt8) × Bool) → StreamAudio × Except String MonoToStereo48k
  | up, s, [] => (s, .ok up)
  | _, s, (.error error, _) :: _ => (s, .error ("speech stream read: " ++ error))
  | up, s, (.ok bytes, takes) :: reads =>
    readStream sink (up.push bytes).1 (s.take sink (up.push bytes).2 takes) reads

def readPcmStream (sink : Bool) (r : StreamRun) :
    StreamAudio × Except StreamAttempt (List TtsAudioChunk) :=
  let none' : StreamAudio := ⟨[], [], true⟩
  match r.early, r.answered, MonoToStereo48k.new OPENAI_TTS_PCM_SAMPLE_RATE with
  | some error, _, _ => (none', .error (.failed error))
  | none, false, _ => (none', .error .useFullBody)
  | none, true, .error error => (none', .error (.failed error))
  | none, true, .ok up =>
    match readStream sink up none' r.reads with
    | (s, .error error) => (s, .error (.failed error))
    | (s, .ok up) =>
      let cancelled := !s.forward || (sink && r.isCancelled)
      let s := if cancelled then s else s.take sink up.finish.2 r.takesTail
      if s.pieces.isEmpty && !cancelled then (s, .error .useFullBody)
      else (s, .ok s.attempt.chunks)

/-- `synthesize_full_body` and `emit_chunks`; `body` is the body as stereo, or its error. -/
def fullBody (sink : Bool) (body : Except String (List UInt8)) (takes : Bool) : Spoken :=
  match body with
  | .error error => ⟨[⟨[], [], []⟩], .error error⟩
  | .ok pcm =>
    ⟨[⟨pcm, [chunkOf pcm], if sink && takes then [chunkOf pcm] else []⟩], .ok [chunkOf pcm]⟩

/-- `synthesize_progressive`; `stream` is there while the delivery is the PCM stream. -/
def speak (sink : Bool) (stream : Option StreamRun) (body : Except String (List UInt8))
    (takes : Bool) : Spoken :=
  match stream with
  | none => fullBody sink body takes
  | some r =>
    let read := readPcmStream sink r
    match read.2 with
    | .ok chunks => ⟨[read.1.attempt], .ok chunks⟩
    | .error (.failed error) => ⟨[read.1.attempt], .error error⟩
    | .error .useFullBody =>
      ⟨read.1.attempt :: (fullBody sink body takes).attempts, (fullBody sink body takes).result⟩

end OpenAi

/-- A synthesis of one of the clients with all that it meets. -/
inductive Client where
  | cartesia (voiceError : Option String) (socket : Option (SocketRun Cartesia.Message))
      (rest : RestReads)
  | deepgram (socket : Option (SocketRun Deepgram.Message)) (rest : RestReads)
  | openAi (stream : Option OpenAi.StreamRun) (body : Except String (List UInt8)) (takes : Bool)

def Client.speak (sink : Bool) : Client → Spoken
  | .cartesia voiceError socket rest => Cartesia.speak sink voiceError socket rest
  | .deepgram socket rest => Deepgram.speak sink socket rest
  | .openAi stream body takes => OpenAi.speak sink stream body takes

def Client.toChunk : Client → List UInt8 → TtsAudioChunk
  | .cartesia .. | .deepgram .. => pcmChunkFromMono
  | .openAi .. => OpenAi.chunkOf

/-! ## No audio is played twice -/

/-- The chunks that the sink took are pieces of the attempt's audio, in order. -/
def Attempt.InPieces (toChunk : List UInt8 → TtsAudioChunk) (a : Attempt) : Prop :=
  ∃ pieces : List (List UInt8), pieces.flatten = a.audio ∧
    List.Sublist a.accepted (pieces.map toChunk)

/-- Another attempt starts only while the sink has no audio, so all it has is of the last one, in
pieces that are each sent once and in order; that attempt's audio is returned. -/
structure OneAttempt (toChunk : List UInt8 → TtsAudioChunk) (s : Spoken) : Prop where
  silent : ∀ a ∈ s.attempts.dropLast, a.pcm = []
  heard : s.attempts.flatMap Attempt.pcm = (s.attempts.getLast?.map Attempt.pcm).getD []
  pieces : ∀ a ∈ s.attempts, a.InPieces toChunk
  returned : ∀ chunks, s.result = .ok chunks → ∃ a, s.attempts.getLast? = some a ∧ chunks = a.chunks

/-- What the flags of an attempt on a socket say. -/
structure Utterance.Flagged (u : Utterance) : Prop where
  pieces : List.Sublist u.accepted (u.pieces.map pcmChunkFromMono)
  emitted : u.emittedAny = false → u.accepted = []
  received : u.received = false → u.attempt.pcm = []

theorem Utterance.Flagged.take {u : Utterance} (h : u.Flagged) (sink : Bool) (bytes : List UInt8)
    (takes : Bool) : (u.take sink bytes takes).Flagged := by
  refine ⟨?_, fun hemitted => ?_, fun hreceived => ?_⟩
  · rw [Utterance.take, List.map_append]
    refine h.pieces.append ?_
    split
    · exact List.Sublist.refl _
    · exact List.nil_sublist _
  · obtain ⟨hold, hnew⟩ := Bool.or_eq_false_iff.mp hemitted
    rw [Utterance.take, h.emitted hold, hnew]
    rfl
  · obtain ⟨hold, hnew⟩ := Bool.or_eq_false_iff.mp hreceived
    have hempty : bytes = [] := by simpa using hnew
    have hpcm := h.received hold
    rw [Utterance.attempt, Attempt.pcm] at hpcm
    rw [Utterance.attempt, Attempt.pcm, Utterance.take, List.flatMap_append, hpcm, hempty]
    split <;> rfl

theorem Utterance.Flagged.empty : Utterance.empty.Flagged :=
  ⟨List.Sublist.refl _, fun _ => rfl, fun _ => rfl⟩

theorem Utterance.Flagged.readFlags {vendor closed : String} {item : WsRead μ → WsItem}
    {sink : Bool} {u : Utterance} (h : u.Flagged) (reads : List (WsRead μ × Bool)) :
    (readFlags vendor closed item sink u reads).1.Flagged := by
  induction reads generalizing u with
  | nil => exact h
  | cons read reads ih =>
    rw [Vendors.readFlags]
    split
    · exact ih (h.take sink _ _)
    · exact ih h
    · exact h
    · exact h
    · exact h
    · exact h

theorem Utterance.Flagged.inPieces {u : Utterance} (h : u.Flagged) :
    u.attempt.InPieces pcmChunkFromMono :=
  ⟨u.pieces, rfl, h.pieces⟩

/-- What a synthesis over the socket leaves for a fallback. -/
structure SocketOutcome (w : List Attempt × Except (String × Bool) (List TtsAudioChunk)) :
    Prop where
  silent : ∀ a ∈ w.1.dropLast, a.pcm = []
  pieces : ∀ a ∈ w.1, a.InPieces pcmChunkFromMono
  returned : ∀ chunks, w.2 = .ok chunks → ∃ a, w.1.getLast? = some a ∧ chunks = a.chunks
  unsent : ∀ error, w.2 = .error (error, false) → ∀ a ∈ w.1, a.pcm = []

theorem socketOutcome (run : SocketReads μ → Utterance × UttEnd) (retries : Utterance → Bool)
    (hrun : ∀ r, (run r).1.Flagged) (hretries : ∀ u, retries u = true → u.received = false)
    (r : SocketRun μ) : SocketOutcome (synthesizeSocket run retries r) := by
  have hnone : ∀ error, SocketOutcome ([], .error (error, false)) := fun error =>
    ⟨nofun, nofun, nofun, fun _ _ => nofun⟩
  -- the attempts end with `u`, and those before it are silent
  have hlast : ∀ (before : List Attempt) (u : Utterance)
      (result : Except (String × Bool) (List TtsAudioChunk)), u.Flagged →
      (∀ a ∈ before, a.pcm = [] ∧ a.InPieces pcmChunkFromMono) →
      (∀ chunks, result = .ok chunks → chunks = u.attempt.chunks) →
      (∀ error, result = .error (error, false) → u.attempt.pcm = []) →
      SocketOutcome (before ++ [u.attempt], result) := by
    intro before u result hu hbefore hok herror
    refine ⟨fun a ha => ?_, fun a ha => ?_, fun chunks hc => ?_, fun error he a ha => ?_⟩
    · rw [List.dropLast_concat] at ha
      exact (hbefore a ha).1
    · rcases List.mem_append.mp ha with ha | ha
      · exact (hbefore a ha).2
      · rw [List.mem_singleton.mp ha]
        exact hu.inPieces
    · exact ⟨u.attempt, List.getLast?_concat, hok chunks hc⟩
    · rcases List.mem_append.mp ha with ha | ha
      · exact (hbefore a ha).1
      · rw [List.mem_singleton.mp ha]
        exact herror error he
  have hemitted : ∀ {u : Utterance} {message error : String}, u.Flagged →
      (Except.error (message, u.emittedAny) : Except (String × Bool) (List TtsAudioChunk)) =
        .error (error, false) → u.attempt.pcm = [] := by
    intro u message error hu he
    cases hflag : u.emittedAny with
    | true => simp [hflag] at he
    | false => rw [Utterance.attempt, hu.emitted hflag]; rfl
  have hfirst := hrun r.first
  have hsecond := hrun r.second
  rw [synthesizeSocket]
  split
  · exact hnone _
  · exact hnone _
  · dsimp only
    split
    · split
      · next message dead hend hretry =>
        have hsilent : ∀ a ∈ [(run r.first).1.attempt],
            a.pcm = [] ∧ a.InPieces pcmChunkFromMono := by
          intro a ha
          rw [List.mem_singleton.mp ha]
          exact ⟨hfirst.received (hretries _ (Bool.and_eq_true_iff.mp hretry).2), hfirst.inPieces⟩
        split
        · exact hlast [] _ _ hfirst nofun nofun fun _ _ =>
            (hsilent _ (List.mem_singleton_self _)).1
        · refine hlast [(run r.first).1.attempt] _ _ hsecond hsilent (fun chunks hc => ?_)
            fun error he => ?_
          · split at hc
            · cases hc
            · exact (Except.ok.inj hc).symm
          · split at he
            · exact hemitted hsecond he
            · cases he
      · exact hlast [] _ _ hfirst nofun nofun fun _ he => hemitted hfirst he
    · next e hend =>
      refine hlast [] _ _ hfirst nofun (fun chunks hc => ?_) fun error he => ?_
      · split at hc
        · cases hc
        · exact (Except.ok.inj hc).symm
      · split at he
        · exact hemitted hfirst he
        · cases he

theorem heard_of_silent {attempts : List Attempt} (h : ∀ a ∈ attempts.dropLast, a.pcm = []) :
    attempts.flatMap Attempt.pcm = (attempts.getLast?.map Attempt.pcm).getD [] := by
  rcases List.eq_nil_or_concat' attempts with rfl | ⟨before, last, rfl⟩
  · rfl
  · rw [List.dropLast_concat] at h
    rw [List.flatMap_append, List.flatMap_eq_nil_iff.mpr h]
    simp

theorem taken_sublist (chunks : List TtsAudioChunk) (takes : List Bool) :
    List.Sublist (taken chunks takes) chunks := by
  fun_induction taken chunks takes with
  | case1 chunk chunks rest ih => exact ih.cons_cons chunk
  | case2 chunk chunks takes rest _ ih => exact ih.cons chunk
  | case3 => exact List.nil_sublist _

theorem readBody_pieces (vendor : String) (sink : Bool) (riff : Option RiffGuard) (s : BodyAudio)
    (reads : List BodyRead)
    (h : ∃ pieces : List (List UInt8), pieces.flatten = s.mono ∧
      List.Sublist s.sent (pieces.map pcmChunkFromMono)) :
    ∃ pieces : List (List UInt8), pieces.flatten = (readBody vendor sink riff s reads).1.mono ∧
      List.Sublist (readBody vendor sink riff s reads).1.sent (pieces.map pcmChunkFromMono) := by
  have htake : ∀ (s : BodyAudio) (bytes : List UInt8),
      (∃ pieces : List (List UInt8), pieces.flatten = s.mono ∧
        List.Sublist s.sent (pieces.map pcmChunkFromMono)) →
      ∃ pieces : List (List UInt8), pieces.flatten = (s.take sink bytes).mono ∧
        List.Sublist (s.take sink bytes).sent (pieces.map pcmChunkFromMono) := by
    intro s bytes hs
    obtain ⟨pieces, hflat, hsub⟩ := hs
    rw [BodyAudio.take]
    generalize (if (s.carry.toList ++ bytes).length % 2 = 1 then (s.carry.toList ++ bytes).dropLast
      else s.carry.toList ++ bytes) = piece
    split
    · exact ⟨pieces, hflat, hsub⟩
    · refine ⟨pieces ++ [piece], by simp [hflat], ?_⟩
      rw [List.map_append]
      refine hsub.append ?_
      split
      · exact List.Sublist.refl _
      · exact List.nil_sublist _
  induction reads generalizing riff s with
  | nil => cases riff <;> exact h
  | cons read reads ih =>
    cases read with
    | chunk bytes =>
      cases riff with
      | none => exact ih none _ (htake s bytes h)
      | some riff =>
        rw [readBody]
        split
        · exact h
        · exact ih _ _ (htake s _ h)
    | failed | timedOut | cancelled => cases riff <;> exact h

theorem oneAttempt_rest {vendor message : String} {sink : Bool} (guard : Option RiffGuard)
    (r : RestReads) {synthesis : Synthesis}
    (hs : synthesis = nonEmptyAudio message (readBody vendor sink guard .empty r.reads)) :
    OneAttempt pcmChunkFromMono (r.speak (readBody vendor sink guard .empty r.reads) synthesis) := by
  have hpieces := readBody_pieces vendor sink guard .empty r.reads
    ⟨[], rfl, List.Sublist.refl _⟩
  rw [RestReads.speak]
  split
  · exact ⟨nofun, rfl, fun a ha => by
      rw [List.mem_singleton.mp ha]
      exact ⟨[], rfl, List.Sublist.refl _⟩, nofun⟩
  · obtain ⟨pieces, hflat, hsub⟩ := hpieces
    refine ⟨nofun, heard_of_silent nofun, fun a ha => ?_, fun chunks hc => ⟨_, rfl, ?_⟩⟩
    · rw [List.mem_singleton.mp ha]
      refine ⟨pieces, hflat, (taken_sublist _ _).trans ?_⟩
      have hsent : synthesis.sent = (readBody vendor sink guard .empty r.reads).1.sent := by
        rw [hs, nonEmptyAudio]
        split
        · rfl
        · split <;> rfl
      rw [hsent]
      exact hsub
    · rw [hs, nonEmptyAudio] at hc
      split at hc
      · cases hc
      · split_ifs at hc
        exact (Except.ok.inj hc).symm

/-- A fallback behind attempts that sent nothing. -/
theorem OneAttempt.behind {toChunk : List UInt8 → TtsAudioChunk} {s : Spoken}
    (before : List Attempt) (h : OneAttempt toChunk s) (hnone : s.attempts ≠ [])
    (hbefore : ∀ a ∈ before, a.pcm = [] ∧ a.InPieces toChunk) :
    OneAttempt toChunk ⟨before ++ s.attempts, s.result⟩ := by
  have hsilent : ∀ a ∈ (before ++ s.attempts).dropLast, a.pcm = [] := by
    intro a ha
    rw [List.dropLast_append_of_ne_nil hnone] at ha
    rcases List.mem_append.mp ha with ha | ha
    · exact (hbefore a ha).1
    · exact h.silent a ha
  refine ⟨hsilent, heard_of_silent hsilent, fun a ha => ?_, fun chunks hc => ?_⟩
  · rcases List.mem_append.mp ha with ha | ha
    · exact (hbefore a ha).2
    · exact h.pieces a ha
  · obtain ⟨a, ha, heq⟩ := h.returned chunks hc
    exact ⟨a, by rw [List.getLast?_append, ha]; rfl, heq⟩

theorem oneAttempt_cartesia (sink : Bool) (voiceError : Option String)
    (socket : Option (SocketRun Cartesia.Message)) (r : RestReads) :
    OneAttempt pcmChunkFromMono (Cartesia.speak sink voiceError socket r) := by
  have hrest : OneAttempt pcmChunkFromMono (Cartesia.rest sink r) := oneAttempt_rest none r rfl
  have hnone : (Cartesia.rest sink r).attempts ≠ [] := by
    rw [Cartesia.rest, RestReads.speak]
    split <;> exact List.cons_ne_nil _ _
  rw [Cartesia.speak.eq_def]
  split
  · exact ⟨nofun, rfl, nofun, nofun⟩
  · exact hrest
  · next s =>
    have hw := socketOutcome (Cartesia.runSocket sink)
      (fun u => !u.received && !u.emittedAny) (fun reads => by
        rw [Cartesia.runSocket]
        split
        · exact Utterance.Flagged.empty
        · exact Utterance.Flagged.empty.readFlags _)
      (fun u hu => by simpa using (Bool.and_eq_true_iff.mp hu).1) s
    dsimp only
    split
    · next chunks hok =>
      refine ⟨hw.silent, heard_of_silent hw.silent, hw.pieces, fun cs hc => ?_⟩
      exact hw.returned cs (hok.trans (congrArg Except.ok (Except.ok.inj hc)))
    · exact ⟨hw.silent, heard_of_silent hw.silent, hw.pieces, nofun⟩
    · next error herror =>
      exact hrest.behind _ hnone fun a ha => ⟨hw.unsent error herror a ha, hw.pieces a ha⟩

theorem oneAttempt_deepgram (sink : Bool) (socket : Option (SocketRun Deepgram.Message))
    (r : RestReads) : OneAttempt pcmChunkFromMono (Deepgram.speak sink socket r) := by
  rw [Deepgram.speak.eq_def]
  split
  · exact oneAttempt_rest (some ⟨[], false⟩) r rfl
  · next s =>
    have hw := socketOutcome (Deepgram.runSocket sink) (fun u => !u.received)
      (fun reads => by
        rw [Deepgram.runSocket]
        split
        · exact Utterance.Flagged.empty
        · have hread : (readFlags "deepgram" Deepgram.closedBeforeFlushed Deepgram.item sink .empty
              reads.reads).1.Flagged := Utterance.Flagged.empty.readFlags _
          dsimp only
          split
          · split <;> exact hread
          · exact hread)
      (fun u hu => by simpa using hu) s
    refine ⟨hw.silent, heard_of_silent hw.silent, hw.pieces, fun chunks hc => ?_⟩
    refine hw.returned chunks ?_
    dsimp only at hc
    cases hresult : (synthesizeSocket (Deepgram.runSocket sink) (fun u => !u.received) s).2 with
    | ok cs =>
      rw [hresult] at hc
      exact congrArg Except.ok (Except.ok.inj hc)
    | error e =>
      rw [hresult] at hc
      cases hc

namespace OpenAi

/-- The stream's audio, and what is true before anything was sent. -/
structure StreamAudio.Flagged (s : StreamAudio) : Prop where
  pieces : List.Sublist s.accepted (s.pieces.map chunkOf)
  none : s.pieces = [] → s.accepted = []

theorem StreamAudio.Flagged.take {s : StreamAudio} (h : s.Flagged) (sink : Bool) (pcm : List UInt8)
    (takes : Bool) : (s.take sink pcm takes).Flagged := by
  rw [StreamAudio.take]
  split
  · exact h
  · refine ⟨?_, fun hp => absurd hp (by simp)⟩
    rw [List.map_append]
    refine h.pieces.append ?_
    split
    · exact List.Sublist.refl _
    · exact List.nil_sublist _

theorem StreamAudio.Flagged.readStream (sink : Bool) {s : StreamAudio} (h : s.Flagged)
    (up : MonoToStereo48k) (reads : List (Except String (List UInt8) × Bool)) :
    (readStream sink up s reads).1.Flagged := by
  induction reads generalizing up s with
  | nil => exact h
  | cons read reads ih =>
    obtain ⟨bytes | bytes, takes⟩ := read
    · exact h
    · exact ih (h.take sink _ _) _

theorem StreamAudio.Flagged.inPieces {s : StreamAudio} (h : s.Flagged) :
    s.attempt.InPieces chunkOf :=
  ⟨s.pieces, rfl, h.pieces⟩

/-- The full body is asked for only when nothing was sent. -/
theorem readPcmStream_spec (sink : Bool) (r : StreamRun) :
    (readPcmStream sink r).1.Flagged ∧
      (∀ chunks, (readPcmStream sink r).2 = .ok chunks →
        chunks = (readPcmStream sink r).1.attempt.chunks) ∧
      ((readPcmStream sink r).2 = .error .useFullBody →
        (readPcmStream sink r).1.attempt.pcm = []) := by
  have hempty : StreamAudio.Flagged ⟨[], [], true⟩ := ⟨List.Sublist.refl _, fun _ => rfl⟩
  rw [readPcmStream]
  dsimp only
  split
  · exact ⟨hempty, nofun, nofun⟩
  · exact ⟨hempty, nofun, fun _ => rfl⟩
  · exact ⟨hempty, nofun, nofun⟩
  · next up _ _ _ =>
    have hread := hempty.readStream sink up r.reads
    split
    · next s error heq =>
      rw [heq] at hread
      exact ⟨hread, nofun, nofun⟩
    · next s up' heq =>
      rw [heq] at hread
      have hend : (if (!s.forward || sink && r.isCancelled) = true then s
          else s.take sink up'.finish.2 r.takesTail).Flagged := by
        split
        · exact hread
        · exact hread.take sink _ _
      generalize (if (!s.forward || sink && r.isCancelled) = true then s
          else s.take sink up'.finish.2 r.takesTail) = t at hend
      split
      · next hnone =>
        refine ⟨hend, nofun, fun _ => ?_⟩
        rw [StreamAudio.attempt,
          hend.none (List.isEmpty_iff.mp (Bool.and_eq_true_iff.mp hnone).1)]
        rfl
      · exact ⟨hend, fun chunks hc => (Except.ok.inj hc).symm, nofun⟩

theorem oneAttempt_fullBody (sink : Bool) (body : Except String (List UInt8)) (takes : Bool) :
    OneAttempt chunkOf (fullBody sink body takes) := by
  rw [fullBody.eq_def]
  split
  · exact ⟨nofun, rfl, fun a ha => by
      rw [List.mem_singleton.mp ha]
      exact ⟨[], rfl, List.Sublist.refl _⟩, nofun⟩
  · next pcm =>
    refine ⟨nofun, heard_of_silent nofun, fun a ha => ?_, fun chunks hc => ⟨_, rfl, ?_⟩⟩
    · rw [List.mem_singleton.mp ha]
      refine ⟨[pcm], List.flatten_singleton, ?_⟩
      split
      · exact List.Sublist.refl _
      · exact List.nil_sublist _
    · exact (Except.ok.inj hc).symm

theorem oneAttempt_openAi (sink : Bool) (stream : Option StreamRun)
    (body : Except String (List UInt8)) (takes : Bool) :
    OneAttempt chunkOf (speak sink stream body takes) := by
  have hfull := oneAttempt_fullBody sink body takes
  rw [speak.eq_def]
  split
  · exact hfull
  · next r =>
    obtain ⟨hread, hchunks, hunsent⟩ := readPcmStream_spec sink r
    have hpieces : ∀ a ∈ [(readPcmStream sink r).1.attempt], a.InPieces chunkOf := fun a ha => by
      rw [List.mem_singleton.mp ha]
      exact hread.inPieces
    dsimp only
    split
    · next chunks hok =>
      refine ⟨nofun, heard_of_silent nofun, hpieces, fun cs hc => ⟨_, rfl, ?_⟩⟩
      exact (Except.ok.inj hc).symm.trans (hchunks chunks hok)
    · exact ⟨nofun, heard_of_silent nofun, hpieces, nofun⟩
    · next hfallback =>
      have hnone : (fullBody sink body takes).attempts ≠ [] := by
        rw [fullBody.eq_def]
        split <;> exact List.cons_ne_nil _ _
      refine hfull.behind [_] hnone fun a ha => ⟨?_, hpieces a ha⟩
      rw [List.mem_singleton.mp ha]
      exact hunsent hfallback

end OpenAi

/-- No audio of a client is played twice. -/
theorem oneAttempt_of_client (sink : Bool) (c : Client) :
    OneAttempt c.toChunk (c.speak sink) := by
  cases c with
  | cartesia voiceError socket rest => exact oneAttempt_cartesia sink voiceError socket rest
  | deepgram socket rest => exact oneAttempt_deepgram sink socket rest
  | openAi stream body takes => exact OpenAi.oneAttempt_openAi sink stream body takes

end NodeWebrtc.Vendors
