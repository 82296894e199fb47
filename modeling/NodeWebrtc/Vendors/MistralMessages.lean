import Mathlib.Algebra.Order.Group.Nat
import Mathlib.Data.List.Infix
import NodeWebrtc.Vendors.MistralSession

/-! # What a session sends

What one command takes, keeps for a replay and sends, on a socket that may fail and on one that
takes everything.
-/

namespace NodeWebrtc.Vendors.Mistral

/-! ## Commands and messages -/

def audioOf (cmds : List Cmd) : List UInt8 :=
  cmds.flatMap fun cmd =>
    match cmd with
    | .audio pcm => pcm
    | _ => []

def Cmd.isEnd : Cmd → Bool
  | .endOf _ => true
  | _ => false

def ended (cmds : List Cmd) : Bool := cmds.any Cmd.isEnd

def appended (messages : List WsMessage) : List UInt8 :=
  messages.flatMap fun message =>
    match message with
    | .append pcm => pcm
    | .endInput => []

@[simp] theorem audioOf_nil : audioOf [] = [] := rfl

@[simp] theorem audioOf_append (front back : List Cmd) :
    audioOf (front ++ back) = audioOf front ++ audioOf back :=
  List.flatMap_append

theorem audioOf_cons (cmd : Cmd) (cmds : List Cmd) :
    audioOf (cmd :: cmds) = audioOf [cmd] ++ audioOf cmds :=
  audioOf_append [cmd] cmds

@[simp] theorem ended_nil : ended [] = false := rfl

@[simp] theorem ended_cons (cmd : Cmd) (cmds : List Cmd) :
    ended (cmd :: cmds) = (cmd.isEnd || ended cmds) :=
  List.any_cons

@[simp] theorem ended_append (front back : List Cmd) :
    ended (front ++ back) = (ended front || ended back) :=
  List.any_append

@[simp] theorem appended_append (front back : List WsMessage) :
    appended (front ++ back) = appended front ++ appended back :=
  List.flatMap_append

@[simp] theorem appended_map (pieces : List (List UInt8)) :
    appended (pieces.map .append) = pieces.flatten := by
  induction pieces with
  | nil => rfl
  | cons piece pieces ih =>
    change piece ++ appended (pieces.map .append) = _
    rw [ih, List.flatten_cons]

@[simp] theorem appended_end : appended [.endInput] = [] := rfl

theorem count_end_map (pieces : List (List UInt8)) :
    (pieces.map WsMessage.append).count .endInput = 0 := by
  refine List.count_eq_zero.mpr fun hmem => ?_
  obtain ⟨piece, -, hpiece⟩ := List.mem_map.mp hmem
  cases hpiece

theorem exists_map_append {messages : List WsMessage} (h : messages.count .endInput = 0) :
    ∃ pieces : List (List UInt8), messages = pieces.map .append := by
  induction messages with
  | nil => exact ⟨[], rfl⟩
  | cons message messages ih =>
    cases message with
    | endInput =>
      rw [List.count_cons_self] at h
      cases h
    | append pcm =>
      rw [List.count_cons_of_ne (fun heq => by cases heq)] at h
      obtain ⟨pieces, rfl⟩ := ih h
      exact ⟨pcm :: pieces, rfl⟩

theorem ticket_apply (own : Local) (cmd : Cmd) :
    (own.apply cmd).ticket.isSome = (own.ticket.isSome || cmd.isEnd) := by
  cases cmd <;> simp [Local.apply, Cmd.isEnd]

theorem ticket_foldl (own : Local) (cmds : List Cmd) :
    (cmds.foldl Local.apply own).ticket.isSome = (own.ticket.isSome || ended cmds) := by
  induction cmds generalizing own with
  | nil => rw [List.foldl_nil, ended_nil, Bool.or_false]
  | cons cmd cmds ih => rw [List.foldl_cons, ih, ticket_apply, ended_cons, Bool.or_assoc]

/-! ## What the socket is sent -/

theorem flatten_chunksFrom {fuel : Nat} {bytes : List UInt8} (h : bytes.length ≤ fuel) :
    (chunksFrom fuel bytes).flatten = bytes := by
  induction fuel generalizing bytes with
  | zero =>
    rw [List.length_eq_zero_iff.mp (Nat.le_zero.mp h)]
    rfl
  | succ fuel ih =>
    rw [chunksFrom]
    split
    · next hnil => rw [List.isEmpty_iff.mp hnil, List.flatten_nil]
    · next hne =>
      have hpos : 0 < bytes.length := List.length_pos_iff.mpr fun hnil => hne (by rw [hnil]; rfl)
      have hdrop : (bytes.drop APPEND_MAX_BYTES).length ≤ fuel := by
        rw [List.length_drop, APPEND_MAX_BYTES]
        omega
      rw [List.flatten_cons, ih hdrop, List.take_append_drop]

theorem flatten_chunks (bytes : List UInt8) : (chunks bytes).flatten = bytes :=
  flatten_chunksFrom le_rfl

theorem sendText_open {ws : Socket} (h : ws.fails = none) (message : WsMessage) :
    ws.sendText message = (⟨ws.sent ++ [message], none⟩, .ok ()) := by
  cases ws
  cases h
  rfl

theorem sendAll_open {ws : Socket} (h : ws.fails = none) (messages : List WsMessage) :
    ws.sendAll messages = (⟨ws.sent ++ messages, none⟩, .ok ()) := by
  induction messages generalizing ws with
  | nil =>
    cases ws
    cases h
    rw [Socket.sendAll, List.append_nil]
  | cons message messages ih =>
    rw [Socket.sendAll, sendText_open h]
    simp only []
    rw [ih rfl, List.append_assoc, List.singleton_append]

namespace Run

/-- `flush` moves audio from the buffer to the replay copy, and changes nothing else. -/
structure Flushed (run run' : Run) : Prop where
  same : run' = { run with
    buf := run'.buf
    replay := run'.replay }
  kept : run.eventSeen = false → run'.replay ++ run'.buf = run.replay ++ run.buf
  small : run.buf.length ≤ APPEND_MAX_BYTES → run'.buf = []

variable {run : Run} {ws : Socket}

theorem flushFrom_flushed {fuel : Nat} (hfuel : run.buf.length ≤ fuel) :
    Flushed run (flushFrom fuel run ws).1 ∧
      ((flushFrom fuel run ws).2.2 = .ok () → (flushFrom fuel run ws).1.buf = []) := by
  induction fuel generalizing run ws with
  | zero =>
    have hnil : run.buf = [] := List.length_eq_zero_iff.mp (Nat.le_zero.mp hfuel)
    exact ⟨⟨rfl, fun _ => rfl, fun _ => hnil⟩, fun _ => hnil⟩
  | succ fuel ih =>
    rw [flushFrom]
    split
    · next hnil =>
      have hnil := List.isEmpty_iff.mp hnil
      exact ⟨⟨rfl, fun _ => rfl, fun _ => hnil⟩, fun _ => hnil⟩
    · next hne =>
      have hpos : 0 < run.buf.length :=
        List.length_pos_iff.mpr fun hnil => hne (by rw [hnil]; rfl)
      extract_lets chunk moved
      have hmoved : moved.eventSeen = false →
          moved.replay ++ moved.buf = run.replay ++ run.buf := by
        intro hseen
        change (if run.eventSeen then run.replay else run.replay ++ chunk) ++
          run.buf.drop APPEND_MAX_BYTES = _
        rw [if_neg (by rw [show run.eventSeen = false from hseen]; exact Bool.false_ne_true),
          List.append_assoc, List.take_append_drop]
      have hdrop : moved.buf.length ≤ fuel := by
        change (run.buf.drop APPEND_MAX_BYTES).length ≤ fuel
        rw [List.length_drop, APPEND_MAX_BYTES]
        omega
      have hsmall : run.buf.length ≤ APPEND_MAX_BYTES → moved.buf = [] :=
        fun h => List.drop_eq_nil_of_le h
      split
      · next ws' _ =>
        obtain ⟨⟨hsame, hkept, hmore⟩, hok⟩ := @ih moved ws' hdrop
        refine ⟨⟨?_, fun hseen => (hkept hseen).trans (hmoved hseen), fun h => ?_⟩, hok⟩
        · rw [hsame]
        · exact hmore (by rw [hsmall h]; exact Nat.zero_le _)
      · exact ⟨⟨rfl, hmoved, hsmall⟩, fun h => by cases h⟩

theorem flush_flushed (run : Run) (ws : Socket) : Flushed run (run.flush ws).1 :=
  (flushFrom_flushed le_rfl).1

theorem flush_ok (h : (run.flush ws).2.2 = .ok ()) : (run.flush ws).1.buf = [] :=
  (flushFrom_flushed le_rfl).2 h

theorem flushFrom_open {fuel : Nat} (hfuel : run.buf.length ≤ fuel) (h : ws.fails = none) :
    (flushFrom fuel run ws).2 = (⟨ws.sent ++ (chunksFrom fuel run.buf).map .append, none⟩, .ok ()) := by
  induction fuel generalizing run ws with
  | zero =>
    cases ws
    cases h
    simp [flushFrom, chunksFrom]
  | succ fuel ih =>
    rw [flushFrom, chunksFrom]
    split
    · cases ws
      cases h
      simp
    · next hne =>
      have hpos : 0 < run.buf.length :=
        List.length_pos_iff.mpr fun hnil => hne (by rw [hnil]; rfl)
      have hdrop : (run.buf.drop APPEND_MAX_BYTES).length ≤ fuel := by
        rw [List.length_drop, APPEND_MAX_BYTES]
        omega
      simp only [sendText_open h]
      rw [ih hdrop rfl, List.map_cons, List.append_assoc, List.singleton_append]

theorem flush_open (run : Run) (h : ws.fails = none) :
    ∃ run', run.flush ws = (run', ⟨ws.sent ++ (chunks run.buf).map .append, none⟩, .ok ()) ∧
      run'.buf = [] := by
  have hopen : (run.flush ws).2 = _ := flushFrom_open le_rfl h
  exact ⟨(run.flush ws).1, Prod.ext rfl hopen, flush_ok (congrArg Prod.snd hopen)⟩

theorem restore_open (run : Run) (h : ws.fails = none) :
    run.restore ws =
      ({ run with deadline := run.deadline || run.own.ticket.isSome },
        ⟨ws.sent ++ ((chunks run.replay).map .append ++
          if run.own.ticket.isSome then [.endInput] else []), none⟩, .ok ()) := by
  rw [restore, sendAll_open h]
  cases hticket : run.own.ticket with
  | none => simp
  | some ticket => simp [sendText_open]

theorem noteEvent_eq (run : Run) :
    ∃ seen replay, run.noteEvent = { run with
      eventSeen := seen
      replay := replay } ∧
      (seen = true ∨ (seen = run.eventSeen ∧ replay = run.replay)) := by
  rw [noteEvent]
  split
  · exact ⟨_, _, rfl, .inl rfl⟩
  · exact ⟨run.eventSeen, run.replay, rfl, .inr ⟨rfl, rfl⟩⟩

/-- A command on any socket: what it leaves, up to the part that `flush` moves. -/
structure Commanded (cmd : Cmd) (run run' : Run) : Prop where
  rx : run'.rx = run.rx
  pending : run'.pending = run.pending
  replayed : run'.replayed = run.replayed
  eventSeen : run'.eventSeen = run.eventSeen
  rxOpen : run'.rxOpen = run.rxOpen
  own : run'.own = run.own.apply cmd
  deadline : run'.deadline = true → run.deadline = true ∨ run'.own.ticket.isSome = true
  stillArmed : run.deadline = true → run'.deadline = true
  kept : run.eventSeen = false →
    run'.replay ++ run'.buf = run.replay ++ run.buf ++ audioOf [cmd]

theorem Commanded.flushed {cmd : Cmd} {heard run' : Run} (h : Commanded cmd run heard)
    (hflush : Flushed heard run') : Commanded cmd run run' := by
  have hsame := hflush.same
  refine ⟨?_, ?_, ?_, ?_, ?_, ?_, ?_, ?_, ?_⟩
  · rw [hsame]
    exact h.rx
  · rw [hsame]
    exact h.pending
  · rw [hsame]
    exact h.replayed
  · rw [hsame]
    exact h.eventSeen
  · rw [hsame]
    exact h.rxOpen
  · rw [hsame]
    exact h.own
  · rw [hsame]
    exact h.deadline
  · rw [hsame]
    exact h.stillArmed
  · exact fun hseen => (hflush.kept (h.eventSeen.trans hseen)).trans (h.kept hseen)

theorem Commanded.armed {cmd : Cmd} {run' : Run} (h : Commanded cmd run run')
    (hticket : run'.own.ticket.isSome = true) :
    Commanded cmd run { run' with deadline := true } :=
  ⟨h.rx, h.pending, h.replayed, h.eventSeen, h.rxOpen, h.own, fun _ => .inr hticket, fun _ => rfl,
    h.kept⟩

theorem commanded_audio (run : Run) (pcm : List UInt8) :
    Commanded (.audio pcm) run { run with
      own := { run.own with claimed := true }
      buf := run.buf ++ pcm } := by
  refine ⟨rfl, rfl, rfl, rfl, rfl, rfl, .inl, id, fun _ => ?_⟩
  change run.replay ++ (run.buf ++ pcm) = run.replay ++ run.buf ++ (pcm ++ [])
  rw [List.append_nil, List.append_assoc]

theorem commanded_endOf (run : Run) (ticket : Nat) :
    Commanded (.endOf ticket) run { run with
      own := { run.own with ticket := some ticket } } :=
  ⟨rfl, rfl, rfl, rfl, rfl, rfl, .inl, id, fun _ => (List.append_nil _).symm⟩

theorem commanded_claim (run : Run) (after : Nat) :
    Commanded (.claim after) run { run with own := run.own.apply (.claim after) } :=
  ⟨rfl, rfl, rfl, rfl, rfl, rfl, .inl, id, fun _ => (List.append_nil _).symm⟩

theorem command_commanded {cmd : Cmd} (hclose : cmd ≠ .close) (run : Run) (ws : Socket) :
    Commanded cmd run (run.command ws (some cmd)).1 ∧
      (run.command ws (some cmd)).2.2 ≠ .ok true ∧
      (run.buf.length < APPEND_TARGET_BYTES →
        ((run.command ws (some cmd)).2.2 = .ok false →
          (run.command ws (some cmd)).1.buf.length < APPEND_TARGET_BYTES) ∧
        (cmd.isEnd = true → (run.command ws (some cmd)).1.buf = [])) := by
  cases cmd with
  | close => exact absurd rfl hclose
  | claim after =>
    exact ⟨commanded_claim run after, by simp [command],
      fun hbuf => ⟨fun _ => hbuf, by simp [Cmd.isEnd]⟩⟩
  | audio pcm =>
    have hheard := commanded_audio run pcm
    rw [command]
    generalize ({ run with
      own := { run.own with claimed := true }
      buf := run.buf ++ pcm } : Run) = heard at hheard
    split
    · have hflush := flush_flushed heard ws
      have hok := @flush_ok heard ws
      split
      · next run' ws' heq =>
        rw [heq] at hflush hok
        refine ⟨hheard.flushed hflush, by simp, fun _ => ⟨fun _ => ?_, by simp [Cmd.isEnd]⟩⟩
        rw [show run'.buf = [] from hok rfl]
        decide
      · next run' ws' error heq =>
        rw [heq] at hflush
        exact ⟨hheard.flushed hflush, by simp, fun _ => ⟨by simp, by simp [Cmd.isEnd]⟩⟩
    · next hshort =>
      exact ⟨hheard, by simp, fun _ => ⟨fun _ => Nat.lt_of_not_le hshort, by simp [Cmd.isEnd]⟩⟩
  | endOf ticket =>
    have hheard := commanded_endOf run ticket
    have hticket : ({ run with
        own := { run.own with ticket := some ticket } } : Run).own.ticket.isSome = true := rfl
    have hsmall : run.buf.length < APPEND_TARGET_BYTES → ({ run with
        own := { run.own with ticket := some ticket } } : Run).buf.length ≤
          APPEND_MAX_BYTES := by
      intro hbuf
      change run.buf.length ≤ APPEND_MAX_BYTES
      rw [APPEND_TARGET_BYTES] at hbuf
      rw [APPEND_MAX_BYTES]
      omega
    rw [command]
    generalize ({ run with
      own := { run.own with ticket := some ticket } } : Run) = heard at hheard hticket hsmall
    have hflush := flush_flushed heard ws
    have hnil := fun hbuf => hflush.small (hsmall hbuf)
    split
    · next run' ws' error heq =>
      rw [heq] at hflush hnil
      exact ⟨hheard.flushed hflush, by simp, fun hbuf => ⟨by simp, fun _ => hnil hbuf⟩⟩
    · next run' ws' heq =>
      rw [heq] at hflush hnil
      have hdone := hheard.flushed hflush
      have hticket' : run'.own.ticket.isSome = true := by
        have hsame : run' = _ := hflush.same
        rw [hsame]
        exact hticket
      split
      · exact ⟨hdone, by simp, fun hbuf => ⟨by simp, fun _ => hnil hbuf⟩⟩
      · refine ⟨hdone.armed hticket', by simp, fun hbuf => ⟨fun _ => ?_, fun _ => hnil hbuf⟩⟩
        rw [show run'.buf = [] from hnil hbuf]
        decide

theorem command_endOf_armed {ticket : Nat}
    (h : (run.command ws (some (.endOf ticket))).2.2 = .ok false) :
    (run.command ws (some (.endOf ticket))).1.deadline = true := by
  rw [command] at h ⊢
  split at h
  · cases h
  · next heq =>
    split at h
    · cases h
    · next hsent => simp only [heq, hsent]

theorem command_open {cmd : Cmd} (hclose : cmd ≠ .close) (run : Run) (h : ws.fails = none) :
    ∃ run' messages, run.command ws (some cmd) = (run', ⟨ws.sent ++ messages, none⟩, .ok false) ∧
      appended messages ++ run'.buf = run.buf ++ audioOf [cmd] ∧
      messages.count .endInput = (if cmd.isEnd then 1 else 0) ∧
      (cmd.isEnd = true → run'.buf = [] ∧
        ∃ pieces : List (List UInt8), messages = pieces.map .append ++ [.endInput]) := by
  have hws : ws = ⟨ws.sent, none⟩ := by
    cases ws
    cases h
    rfl
  cases cmd with
  | close => exact absurd rfl hclose
  | claim after =>
    refine ⟨_, [], by rw [command, List.append_nil, ← hws], ?_, rfl, fun h => by cases h⟩
    exact (List.append_nil _).symm
  | audio pcm =>
    have haudio : audioOf [.audio pcm] = pcm := List.append_nil pcm
    rw [haudio]
    by_cases hlong : APPEND_TARGET_BYTES ≤ (run.buf ++ pcm).length
    · obtain ⟨run', heq, hbuf⟩ := flush_open { run with
        own := { run.own with claimed := true }
        buf := run.buf ++ pcm } h
      refine ⟨run', (chunks (run.buf ++ pcm)).map .append, ?_, ?_, count_end_map _,
        fun h => by cases h⟩
      · simp only [command, if_pos hlong, heq]
      · rw [hbuf, List.append_nil, appended_map, flatten_chunks]
    · refine ⟨{ run with
        own := { run.own with claimed := true }
        buf := run.buf ++ pcm }, [], ?_, rfl, rfl, fun h => by cases h⟩
      simp only [command, if_neg hlong]
      rw [List.append_nil, ← hws]
  | endOf ticket =>
    obtain ⟨run', heq, hbuf⟩ :=
      flush_open { run with own := { run.own with ticket := some ticket } } h
    refine ⟨{ run' with deadline := true }, (chunks run.buf).map .append ++ [.endInput],
      ?_, ?_, ?_, fun _ => ⟨hbuf, _, rfl⟩⟩
    · simp only [command, heq, sendText_open, List.append_assoc]
    · change _ ++ run'.buf = _
      rw [hbuf, List.append_nil, appended_append, appended_map, flatten_chunks, appended_end]
      rfl
    · rw [List.count_append, count_end_map]
      rfl

theorem command_replayed (run : Run) (ws : Socket) (cmd : Option Cmd) :
    (run.command ws cmd).1.replayed = run.replayed := by
  cases cmd with
  | none =>
    rw [command]
    split <;> rfl
  | some cmd =>
    by_cases hclose : cmd = .close
    · rw [hclose]
      rfl
    · exact (command_commanded hclose run ws).1.replayed

theorem restore_same (run : Run) (ws : Socket) :
    (run.restore ws).1.rx = run.rx ∧ (run.restore ws).1.pending = run.pending ∧
      (run.restore ws).1.own = run.own := by
  rw [restore]
  split
  · exact ⟨rfl, rfl, rfl⟩
  · split
    · split <;> exact ⟨rfl, rfl, rfl⟩
    · exact ⟨rfl, rfl, rfl⟩

theorem restore_replayed (run : Run) (ws : Socket) :
    (run.restore ws).1.replayed = run.replayed := by
  rw [restore]
  split
  · rfl
  · split
    · split <;> rfl
    · rfl

end Run

end NodeWebrtc.Vendors.Mistral
