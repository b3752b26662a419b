import TerminalMarkup.Printer
import TerminalMarkup.Proofs.Text.Boundary

/-!
Contract: what a printer has delivered to its sink after any calls.

The stream of a printer is what its calls render to, one behind the other. A
write stores what fits of its bytes, and what is left over does not fit either,
so `writeAll` amounts to one write. The sink holds the beginning of the stream,
cut at its room: a cut may fall within a character, and calls behind it store
nothing.
-/

set_option autoImplicit false

namespace TerminalMarkup

/-! ## Writing everything -/

namespace Sink

theorem accepted_le (sink : Sink) (count : Nat) : sink.accepted count ≤ count := by
  cases room : sink.room with
  | none => simp [accepted, room]
  | some limit =>
      simp only [accepted, room]
      exact Nat.min_le_left _ _

/-- After a write the sink takes nothing of what is left over. -/
theorem accepted_write_rest (sink : Sink) (bytes : List UInt8) :
    (sink.write bytes).accepted (bytes.drop (sink.accepted bytes.length)).length = 0 := by
  cases room : sink.room with
  | none => simp [accepted, write, room]
  | some limit =>
      simp only [accepted, write, room, List.length_append, List.length_take, List.length_drop]
      omega

theorem write_of_full {sink : Sink} {bytes : List UInt8}
    (full : sink.accepted bytes.length = 0) :
    sink.write bytes = sink := by
  simp [write, full]

theorem writeAll_of_full {sink : Sink} {bytes : List UInt8}
    (full : sink.accepted bytes.length = 0) :
    sink.writeAll bytes = (sink, if bytes = [] then .ok () else .error .writeZero) := by
  cases bytes with
  | nil =>
      rw [writeAll]
      rfl
  | cons byte rest =>
      rw [writeAll, if_pos full, write_of_full full]
      rfl

/-- Writing everything stores what one write stores, and fails if that is not
everything. -/
theorem writeAll_eq (sink : Sink) (bytes : List UInt8) :
    sink.writeAll bytes = (sink.write bytes,
      if sink.accepted bytes.length = bytes.length then .ok () else .error .writeZero) := by
  by_cases full : sink.accepted bytes.length = 0
  · rw [writeAll_of_full full, write_of_full full, full]
    simp only [eq_comm, List.length_eq_zero_iff]
  · cases bytes with
    | nil => exact absurd (Nat.le_zero.mp (sink.accepted_le 0)) full
    | cons byte rest =>
        have fits := sink.accepted_le (byte :: rest).length
        have complete : (byte :: rest).drop (sink.accepted (byte :: rest).length) = [] ↔
            sink.accepted (byte :: rest).length = (byte :: rest).length := by
          rw [List.drop_eq_nil_iff]
          omega
        rw [writeAll, if_neg full, writeAll_of_full (sink.accepted_write_rest (byte :: rest))]
        simp only [complete]

/-- Whether a sink of limited room holds the beginning of some bytes, cut at its
room. -/
structure Holds (sink : Sink) (room : Nat) (bytes : List UInt8) : Prop where
  limited : sink.room = some room
  stored : sink.stored = bytes.take room

namespace Holds

variable {sink : Sink} {room : Nat} {held : List UInt8}

theorem write (holds : sink.Holds room held) (bytes : List UInt8) :
    (sink.write bytes).Holds room (held ++ bytes) := by
  refine ⟨holds.limited, ?_⟩
  have beginning : bytes.take (sink.accepted bytes.length) = bytes.take (room - held.length) := by
    rw [accepted, holds.limited, holds.stored, List.take_eq_take_iff]
    simp only [List.length_take]
    omega
  rw [Sink.write, beginning, holds.stored, List.take_append]

/-- All of some bytes fit if there are none, or if they end within the room. -/
theorem accepted_eq_iff (holds : sink.Holds room held) (bytes : List UInt8) :
    sink.accepted bytes.length = bytes.length ↔
      ¬ (bytes ≠ [] ∧ room < (held ++ bytes).length) := by
  have nonempty : bytes ≠ [] ↔ 0 < bytes.length := List.length_pos_iff.symm
  rw [nonempty, accepted, holds.limited, holds.stored]
  simp only [List.length_append, List.length_take]
  omega

theorem writeAll (holds : sink.Holds room held) (bytes : List UInt8) :
    (sink.writeAll bytes).1.Holds room (held ++ bytes) ∧
      (sink.writeAll bytes).2 =
        if bytes ≠ [] ∧ room < (held ++ bytes).length then .error .writeZero else .ok () := by
  rw [writeAll_eq]
  refine ⟨holds.write bytes, ?_⟩
  simp only [holds.accepted_eq_iff, ite_not]

end Holds

end Sink

/-! ## The stream of calls -/

/-- A text as a rendition has it: with its markup expanded, or removed. -/
def RuleSet.shown (rules : RuleSet) (rendition : Rendition) (text : Text) : Text :=
  match rendition with
  | .styled => rules.apply text
  | .plain => rules.strip text

namespace Printer

/-- What a program can ask of a printer. -/
inductive Call where
  | print (text : Text)
  | printLine (text : Text)
  | printJoined (texts : List Text)
  | flush
deriving DecidableEq, Repr

/-- What a call renders to by itself. -/
def Call.rendering (rules : RuleSet) (rendition : Rendition) : Call → Text
  | .print text => rules.shown rendition text
  | .printLine text => rules.shown rendition text ++ ['\n']
  | .printJoined texts => rules.shown rendition texts.flatten
  | .flush => []

/-- What some calls render to, one behind the other. -/
def stream (rules : RuleSet) (rendition : Rendition) (calls : List Call) : Text :=
  calls.flatMap (Call.rendering rules rendition)

/-- The printer after a call, and whether the call succeeded. -/
def answer (printer : Printer) : Call → Printer × Except SinkError Unit
  | .print text => printer.print text
  | .printLine text => printer.printLine text
  | .printJoined texts => printer.printJoined texts
  | .flush => printer.flush

/-- The printer after some calls, failed ones included. -/
def afterCalls (printer : Printer) : List Call → Printer
  | [] => printer
  | call :: rest => (printer.answer call).1.afterCalls rest

/-- Whether a printer has some rules and a rendition, and its sink holds the
beginning of a text, cut at its room. -/
structure Delivers (printer : Printer) (rules : RuleSet) (rendition : Rendition)
    (room : Nat) (delivered : Text) : Prop where
  sameRules : printer.rules = rules
  sameRendition : printer.rendition = rendition
  holds : printer.sink.Holds room (Text.encode delivered)

theorem rendered_eq (printer : Printer) (text : Text) :
    printer.rendered text = printer.rules.shown printer.rendition text := by
  unfold rendered RuleSet.shown
  cases printer.rendition <;> rfl

/-- A call that prints writes all of what it renders to. -/
theorem answer_of_ne_flush (printer : Printer) {call : Call} (prints : call ≠ .flush) :
    printer.answer call = printer.withSink
      (printer.sink.writeAll (Text.encode (call.rendering printer.rules printer.rendition))) := by
  cases call with
  | print text => rw [answer, print, rendered_eq, Call.rendering]
  | printLine text => rw [answer, printLine, rendered_eq, Call.rendering]
  | printJoined texts => rw [answer, printJoined, print, rendered_eq, Call.rendering]
  | flush => exact absurd rfl prints

namespace Delivers

variable {printer : Printer} {rules : RuleSet} {rendition : Rendition} {room : Nat}
  {delivered : Text}

/-- A call that prints fails if what it renders to is not empty and ends behind
the room. -/
theorem answer_printing (delivers : printer.Delivers rules rendition room delivered)
    {call : Call} (prints : call ≠ .flush) :
    (printer.answer call).1.Delivers rules rendition room
        (delivered ++ call.rendering rules rendition) ∧
      (printer.answer call).2 =
        if call.rendering rules rendition ≠ [] ∧
            room < Text.byteCount (delivered ++ call.rendering rules rendition) then
          .error .writeZero
        else .ok () := by
  obtain ⟨holds, outcome⟩ :=
    delivers.holds.writeAll (Text.encode (call.rendering rules rendition))
  rw [← Text.encode_append] at holds outcome
  rw [Text.length_encode] at outcome
  rw [printer.answer_of_ne_flush prints, delivers.sameRules, delivers.sameRendition]
  refine ⟨⟨delivers.sameRules, delivers.sameRendition, holds⟩, ?_⟩
  simp only [ne_eq, Text.encode_eq_nil_iff] at outcome ⊢
  exact outcome

/-- Every call adds what it renders to to what the printer delivers. -/
theorem answer (delivers : printer.Delivers rules rendition room delivered) (call : Call) :
    (printer.answer call).1.Delivers rules rendition room
      (delivered ++ call.rendering rules rendition) := by
  by_cases flushes : call = .flush
  · subst flushes
    refine ⟨delivers.sameRules, delivers.sameRendition, delivers.holds.limited, ?_⟩
    rw [Call.rendering, List.append_nil]
    exact delivers.holds.stored
  · exact (delivers.answer_printing flushes).1

theorem afterCalls (delivers : printer.Delivers rules rendition room delivered)
    (calls : List Call) :
    (printer.afterCalls calls).Delivers rules rendition room
      (delivered ++ stream rules rendition calls) := by
  induction calls generalizing printer delivered with
  | nil =>
      rw [stream, List.flatMap_nil, List.append_nil]
      exact delivers
  | cons call rest inductionHypothesis =>
      have next := inductionHypothesis (delivers.answer call)
      rw [List.append_assoc] at next
      exact next

end Delivers

/-- A printer that has not been called yet, over a sink of some room. -/
def fresh (rules : RuleSet) (rendition : Rendition) (room : Nat) : Printer where
  rules
  rendition
  sink := { room := some room }

theorem delivers_fresh (rules : RuleSet) (rendition : Rendition) (room : Nat) :
    (fresh rules rendition room).Delivers rules rendition room [] := by
  refine ⟨rfl, rfl, rfl, ?_⟩
  rw [Text.encode_nil, List.take_nil]
  rfl

/-- After any calls, failed ones included, the sink of a printer holds what the
calls render to, one behind the other, in UTF-8 and cut at the room of the sink.
The next call that prints fails exactly if what it renders to is not empty and
the stream does not fit any more. The rules and the rendition do not change, and
the next text is rendered with no rule open. -/
theorem delivers_stream_cut_at_room (rules : RuleSet) (rendition : Rendition) (room : Nat)
    (calls : List Call) :
    let printer := (fresh rules rendition room).afterCalls calls
    printer.sink.stored = (Text.encode (stream rules rendition calls)).take room ∧
    (∀ call, call ≠ .flush →
      (printer.answer call).2 =
        if call.rendering rules rendition ≠ [] ∧
            room < Text.byteCount (stream rules rendition (calls ++ [call])) then
          .error .writeZero
        else .ok ()) ∧
    printer.rules = rules ∧ printer.rendition = rendition ∧
    ∀ text, printer.rendered text =
      (rules.emissions [] (rules.scan text)).flatMap (Emission.written rendition) := by
  intro printer
  have delivers : printer.Delivers rules rendition room (stream rules rendition calls) :=
    (delivers_fresh rules rendition room).afterCalls calls
  refine ⟨delivers.holds.stored, ?_, delivers.sameRules, delivers.sameRendition, ?_⟩
  · intro call prints
    have extended : stream rules rendition (calls ++ [call]) =
        stream rules rendition calls ++ call.rendering rules rendition := by
      simp [stream]
    rw [extended]
    exact (delivers.answer_printing prints).2
  · intro text
    rw [rendered, delivers.sameRules, delivers.sameRendition]
    rfl

/-- The first call is cut within a character, and the calls behind it store
nothing. -/
example :
    let rules : RuleSet :=
      { ordinary := Table.empty, resetRule := builtinReset.compiled .keep, settings := {} }
    let printer := (fresh rules .styled 2).afterCalls
      [.print "a%\x7dé".toList, .flush, .printLine "b".toList]
    printer.sink.stored = [0x61, 0xc3] := by
  decide +kernel

end Printer

end TerminalMarkup
