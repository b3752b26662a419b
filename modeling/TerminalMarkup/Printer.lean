import TerminalMarkup.Markup.RuleSet

/-!
Contract: printers, which render marked-up text into a sink of limited room.

One write stores as many bytes as fit and reports their number. `writeAll`
repeats the write with what is left and fails when a write stores nothing;
what was stored before stays stored.

A printer keeps to one rendition: it expands the markup of every text or
removes it. Each call renders its text from the beginning, so no open rule
carries over to the next call.
-/

set_option autoImplicit false

namespace TerminalMarkup

/-! ## Sinks -/

/-- The causes for which output fails. -/
inductive SinkError where
  | writeZero
  | full
deriving DecidableEq, Repr

def SinkError.message : SinkError → Text
  | .writeZero => "failed to write whole buffer".toList
  | .full => "sink is full".toList

/-- A sink, what it has stored, and how often it was flushed. Without a limit
there is room for everything. -/
structure Sink where
  room : Option Nat := none
  stored : List UInt8 := []
  flushes : Nat := 0
deriving DecidableEq, Repr

namespace Sink

/-- How many of some bytes a sink can still take. -/
def accepted (sink : Sink) (count : Nat) : Nat :=
  match sink.room with
  | none => count
  | some room => min count (room - sink.stored.length)

/-- Stores what fits of some bytes. -/
def write (sink : Sink) (bytes : List UInt8) : Sink :=
  { sink with stored := sink.stored ++ bytes.take (sink.accepted bytes.length) }

/-- Writes until all bytes are stored or a write stores none. -/
def writeAll (sink : Sink) (bytes : List UInt8) : Sink × Except SinkError Unit :=
  match bytes with
  | [] => (sink, .ok ())
  | byte :: rest =>
    if sink.accepted (byte :: rest).length = 0 then (sink.write (byte :: rest), .error .writeZero)
    else
      (sink.write (byte :: rest)).writeAll
        ((byte :: rest).drop (sink.accepted (byte :: rest).length))
termination_by bytes.length
decreasing_by
  simp only [List.length_drop, List.length_cons] at *
  omega

/-- Counts the flush, and fails if a limited sink is full. -/
def flush (sink : Sink) : Sink × Except SinkError Unit :=
  ({ sink with flushes := sink.flushes + 1 },
    if sink.room = some sink.stored.length then .error .full else .ok ())

end Sink

/-! ## Printers -/

/-- A sink together with the rules by which text is rendered into it. -/
structure Printer where
  rules : RuleSet
  rendition : Rendition := .styled
  sink : Sink := {}
deriving DecidableEq, Repr

namespace Printer

def rendered (printer : Printer) (text : Text) : Text :=
  printer.rules.renderText printer.rendition text

/-- The printer after its sink was used. -/
def withSink (printer : Printer) (used : Sink × Except SinkError Unit) :
    Printer × Except SinkError Unit :=
  ({ printer with sink := used.1 }, used.2)

def print (printer : Printer) (text : Text) : Printer × Except SinkError Unit :=
  printer.withSink (printer.sink.writeAll (Text.encode (printer.rendered text)))

def printLine (printer : Printer) (text : Text) : Printer × Except SinkError Unit :=
  printer.withSink (printer.sink.writeAll (Text.encode (printer.rendered text ++ ['\n'])))

/-- Joins some texts and writes what the whole renders to. -/
def printJoined (printer : Printer) (texts : List Text) : Printer × Except SinkError Unit :=
  printer.print texts.flatten

def flush (printer : Printer) : Printer × Except SinkError Unit :=
  printer.withSink printer.sink.flush

end Printer

end TerminalMarkup
