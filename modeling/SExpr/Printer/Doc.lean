import SExpr.Text.Width

/-! Documents with places at which a line may end, and how they are written within a
width.

What is still to be written is a stack of commands. A group is written on one line if
it fits there with what is behind it on the stack, up to the next place at which that
line may end; else each line of the group that is in no other group is broken. -/

namespace SExpr

inductive Doc
  | nil
  | text (content : String)
  /-- A space, or a new line. -/
  | line
  | append (first second : Doc)
  /-- What is inside has new lines indented by so much more. -/
  | nest (indent : Nat) (inner : Doc)
  /-- What is inside is on one line, if it fits. -/
  | group (inner : Doc)
deriving DecidableEq, Inhabited

namespace Doc

/-! ## Putting documents together

Documents with nothing in them leave no trace. -/

def ofText (content : String) : Doc := if content.isEmpty then .nil else .text content

def cat : Doc → Doc → Doc
  | .nil, second => second
  | first, .nil => first
  | first, second => .append first second

def nested (indent : Nat) : Doc → Doc
  | .nil => .nil
  | inner => .nest indent inner

def grouped : Doc → Doc
  | .nil => .nil
  | inner => .group inner

def concat (docs : List Doc) : Doc := docs.foldl cat .nil

/-- The documents with another one between neighbours. -/
def intersperse (separator : Doc) : List Doc → Doc
  | [] => .nil
  | first :: rest => rest.foldl (fun docs doc => (docs.cat separator).cat doc) first

/-- How many steps it takes at most to write a document. -/
def size : Doc → Nat
  | .nil | .text _ | .line => 1
  | .append first second => first.size + second.size + 1
  | .nest _ inner | .group inner => inner.size + 1

def totalSize : List Doc → Nat
  | [] => 0
  | doc :: docs => doc.size + totalSize docs

/-! ## Writing -/

/-- A document to be written, on one line or not, and the indentation of its lines. -/
structure Command where
  indent : Nat
  flat : Bool
  doc : Doc

def newline (indent : Nat) : String := .ofList ('\n' :: List.replicate indent ' ')

/-- Whether the line that has come to the column `pos` stays within `width` with the
documents `docs`, on one line or not, and what is behind them, up to the next place at
which it may end. Behind the documents a line may end wherever there is a place for it. -/
@[simp]
def fits [Display] (width : Nat) (flat : Bool) (pos : Nat) : List Doc → List Command → Bool
  | [], [] => true
  | [], next :: rest => fits width false pos [next.doc] rest
  | .nil :: docs, rest => fits width flat pos docs rest
  | .text content :: docs, rest =>
    pos + Width.ofText content ≤ width &&
      fits width flat (pos + Width.ofText content) docs rest
  | .line :: docs, rest => !flat || pos + 1 ≤ width && fits width flat (pos + 1) docs rest
  | .append first second :: docs, rest => fits width flat pos (first :: second :: docs) rest
  | .nest _ inner :: docs, rest => fits width flat pos (inner :: docs) rest
  | .group inner :: docs, rest => fits width flat pos (inner :: docs) rest
termination_by docs rest => (rest.length, totalSize docs)
decreasing_by all_goals simp [size, totalSize, Prod.lex_def]; try omega

/-- Writes the commands behind `out`, whose last line has come to the column `pos`. A
new line is indented for the command behind it. -/
@[simp]
def render [Display] (width : Nat) (out : String) (pos : Nat) : List Command → String
  | [] => out
  | ⟨_, _, .nil⟩ :: rest => render width out pos rest
  | ⟨_, _, .text content⟩ :: rest =>
    render width (out ++ content) (pos + Width.ofText content) rest
  | ⟨_, true, .line⟩ :: rest => render width (out ++ " ") (pos + 1) rest
  | ⟨indent, false, .line⟩ :: rest =>
    let indent := rest.head?.elim indent Command.indent
    render width (out ++ newline indent) indent rest
  | ⟨indent, flat, .append first second⟩ :: rest =>
    render width out pos (⟨indent, flat, first⟩ :: ⟨indent, flat, second⟩ :: rest)
  | ⟨indent, flat, .nest more inner⟩ :: rest =>
    render width out pos (⟨indent + more, flat, inner⟩ :: rest)
  | ⟨indent, flat, .group inner⟩ :: rest =>
    render width out pos (⟨indent, flat || fits width true pos [inner] rest, inner⟩ :: rest)
termination_by stack => totalSize (stack.map Command.doc)
decreasing_by all_goals simp [size, totalSize]; try omega

end Doc
end SExpr
