import SExpr.Bracket
import SExpr.Character

/-! The table of bracket kinds that a reader or a writer knows.

A table only grows. `register` takes a kind when its characters are free, and a
refused kind leaves the table as it was, so a table taken earlier stays valid for
whoever holds it. The kinds are kept in order of their openers. -/

namespace SExpr

structure BracketTable where
  kinds : List Bracket
deriving DecidableEq

inductive RegistryError
  /-- The pair opens and closes with one character. -/
  | sameCharacter (c : Char)
  /-- The character has a meaning of its own. -/
  | reserved (c : Char)
  /-- The opener is known, with another closer. -/
  | openerInUse (opener closer : Char)
  /-- Another kind uses the character. -/
  | characterInUse (c : Char)
deriving DecidableEq

def RegistryError.message : RegistryError → String
  | .sameCharacter c =>
    "opener and closer must differ, got `" ++ c.toString ++ "` for both"
  | .reserved c => "`" ++ c.toString ++ "` is reserved and can not delimit a sequence"
  | .openerInUse opener closer =>
    "opener `" ++ opener.toString ++ "` is already registered with closer `"
      ++ closer.toString ++ "`"
  | .characterInUse c => "`" ++ c.toString ++ "` is already used by another bracket kind"

namespace BracketTable

/-- Parentheses and square brackets are always known. -/
def default : BracketTable := ⟨[.parens, .square]⟩

instance : Inhabited BracketTable := ⟨default⟩

def opener? (t : BracketTable) (c : Char) : Option Bracket :=
  t.kinds.find? (·.opener == c)

def closer? (t : BracketTable) (c : Char) : Option Bracket :=
  t.kinds.find? (·.closer == c)

def closerOf? (t : BracketTable) (c : Char) : Option Char :=
  (t.opener? c).map (·.closer)

def isDelimiter (t : BracketTable) (c : Char) : Bool :=
  (t.opener? c).isSome || (t.closer? c).isSome

/-- A kind is known by its opener and must have the same closer. -/
def contains (t : BracketTable) (k : Bracket) : Bool :=
  t.opener? k.opener == some k

def size (t : BracketTable) : Nat := t.kinds.length

def isEmpty (t : BracketTable) : Bool := t.kinds.isEmpty

/-- Puts `k` before the first kind with a later opener. -/
def insertByOpener (k : Bracket) : List Bracket → List Bracket
  | [] => [k]
  | a :: rest =>
    if k.opener < a.opener then k :: a :: rest else a :: insertByOpener k rest

theorem mem_insertByOpener {k a : Bracket} {kinds : List Bracket} :
    a ∈ insertByOpener k kinds ↔ a = k ∨ a ∈ kinds := by
  induction kinds with
  | nil => simp [insertByOpener]
  | cons b rest ih =>
    simp only [insertByOpener]
    split
    · simp
    · simp only [List.mem_cons, ih]
      exact or_left_comm

/-- The table with `k` added. A kind that is already known changes nothing; else
both characters must differ, have no meaning of their own and be free. -/
def register (t : BracketTable) (k : Bracket) : Except RegistryError BracketTable :=
  if k.opener = k.closer then .error (.sameCharacter k.opener)
  else if isReserved k.opener then .error (.reserved k.opener)
  else if isReserved k.closer then .error (.reserved k.closer)
  else match t.opener? k.opener with
    | some known =>
      if known = k then .ok t else .error (.openerInUse k.opener known.closer)
    | none =>
      if (t.closer? k.opener).isSome then .error (.characterInUse k.opener)
      else if t.isDelimiter k.closer then .error (.characterInUse k.closer)
      else .ok ⟨insertByOpener k t.kinds⟩

/-- The table after `k` was offered: a refusal leaves it unchanged. -/
def offer (t : BracketTable) (k : Bracket) : BracketTable :=
  match t.register k with
  | .ok t' => t'
  | .error _ => t

def offerAll (t : BracketTable) (kinds : List Bracket) : BracketTable :=
  kinds.foldl offer t

/-- Registers every kind in turn; the first refusal is the result. -/
def registerAll (t : BracketTable) : List Bracket → Except RegistryError BracketTable
  | [] => .ok t
  | k :: rest => do (← t.register k).registerAll rest

end BracketTable

/-- The kind with these characters, if it can stand beside the default kinds. -/
def Bracket.ofChars (opener closer : Char) : Except RegistryError Bracket :=
  (BracketTable.default.register ⟨opener, closer⟩).map fun _ => ⟨opener, closer⟩

end SExpr
