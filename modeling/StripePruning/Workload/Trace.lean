import StripePruning.Text.Decoding
import StripePruning.Workload.Line

/-!
# Traces

A trace is a workload as it is read: its lines one after the other, up to the
end or up to a line that is not text.
-/

namespace StripePruning

/-- The lines of a trace and how their reading ends. -/
structure Trace where
  lines : List String
  ending : ReadEnd := .complete
deriving DecidableEq

namespace Trace

/-- A line without the line feed that ends it, and without a carriage return
before that. -/
def withoutEnd (line : List Char) : List Char :=
  match line.reverse with
  | '\n' :: '\r' :: rest => rest.reverse
  | '\n' :: rest => rest.reverse
  | _ => line

/-- The lines of a text. -/
def linesOf (text : List Char) : List String :=
  (cutBehind (· == '\n') text).map fun line => String.ofList (withoutEnd line)

/-- The trace of a text. -/
def ofText (text : String) : Trace :=
  { lines := linesOf text.toList }

/-- The trace of some bytes.  Bytes that are not text break it at the first line
that is not text. -/
def ofBytes (bytes : ByteArray) : Trace :=
  match String.fromUTF8? bytes with
  | some text => ofText text
  | none =>
    { lines := (textsOf (cutBehind (· == 10) bytes.toList)).map fun line =>
        String.ofList (withoutEnd line.toList)
      ending := .broken }

end Trace

end StripePruning
