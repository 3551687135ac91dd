/-!
# Lines of a byte stream

A program reads its input line by line. A line ends behind a line feed or at
the end of the stream; one that is not valid UTF-8 has no text.
-/

namespace Scriptlet.Text

/-- The lines of a stream of bytes, each with the line feed that ends it. -/
def byteLines : List UInt8 → List (List UInt8)
  | [] => []
  | b :: bs =>
    if b = 10 then [b] :: byteLines bs
    else match byteLines bs with
      | [] => [[b]]
      | line :: rest => (b :: line) :: rest

/-- The texts of the lines of a stream. -/
def streamLines (bytes : ByteArray) : List (Option String) :=
  (byteLines bytes.toList).map fun line => String.fromUTF8? ⟨line.toArray⟩

/-- A line without its terminator: a line feed, or a carriage return and a line
feed. -/
def withoutTerminator (line : List Char) : List Char :=
  match line.reverse with
  | '\n' :: '\r' :: rest => rest.reverse
  | '\n' :: rest => rest.reverse
  | _ => line

/-- A line without all carriage returns and line feeds at its end. -/
def withoutLineEnds (line : List Char) : List Char :=
  (line.reverse.dropWhile fun c => c == '\r' || c == '\n').reverse

/-- What a program reads from a stream: its lines without their ends, and an
empty line for one that has no text. -/
def programInputs (bytes : ByteArray) : List String :=
  (streamLines bytes).map fun line? =>
    match line? with
    | some line => String.ofList (withoutLineEnds line.toList)
    | none => ""

/-- What a reader of commands takes from a stream: its lines without their
terminators, up to the first one that has no text. -/
def commandLines (bytes : ByteArray) : List String :=
  ((streamLines bytes).takeWhile Option.isSome).filterMap fun line? =>
    line?.map fun line => String.ofList (withoutTerminator line.toList)

end Scriptlet.Text
