import SExpr.Print.Options
import SExpr.Proofs.Number

/-! # Options that are set by name

A call with a key and a value is accepted if the value spells a setting of that key,
and then it changes the one field that the setting is for. Every other call is refused
with its own key and value. So after any number of calls each field comes from the last
accepted call with its key. -/

namespace SExpr

open Digits

/-! ## What a value spells -/

theorem ite_names_eq_some_iff {α : Type} {a b name : String} {x y z : α} (hne : a ≠ b) :
    (if name = a then some x else if name = b then some y else none) = some z ↔
      name = a ∧ z = x ∨ name = b ∧ z = y := by
  by_cases ha : name = a
  · subst ha
    simp [hne, eq_comm]
  · rw [if_neg ha, Option.ite_none_right_eq_some, Option.some.injEq]
    simp [ha, eq_comm]

theorem TextStyle.ofName?_eq_some_iff {name : String} {style : TextStyle} :
    ofName? name = some style ↔ name = style.name := by
  unfold ofName?
  rw [ite_names_eq_some_iff (by decide)]
  cases style <;> simp [TextStyle.name]

theorem TupleStyle.ofName?_eq_some_iff {name : String} {style : TupleStyle} :
    ofName? name = some style ↔ name = style.name := by
  unfold ofName?
  rw [ite_names_eq_some_iff (by decide)]
  cases style <;> simp [TupleStyle.name]

namespace PrintOptions

theorem bool?_eq_some_iff {text : String} {b : Bool} :
    bool? text = some b ↔ text = if b then "true" else "false" := by
  unfold bool?
  rw [ite_names_eq_some_iff (by decide)]
  cases b <;> simp

theorem char?_eq_some_iff {text : String} {c : Char} : char? text = some c ↔ text.toList = [c] := by
  unfold char?
  split <;> simp_all

/-- At least one digit, behind a plus sign or without, and the number that they make. -/
inductive WidthText : Nat → List Char → Prop
  | bare {digits : List Char} : digits ≠ [] → AllDigits digits → WidthText (value digits) digits
  | plus {digits : List Char} : digits ≠ [] → AllDigits digits →
      WidthText (value digits) ('+' :: digits)

theorem widthText_plus_iff {n : Nat} {digits : List Char} :
    WidthText n ('+' :: digits) ↔ digits ≠ [] ∧ AllDigits digits ∧ value digits = n := by
  constructor
  · intro h
    cases h with
    | plus hne hdigits => exact ⟨hne, hdigits, rfl⟩
    | bare _ hdigits => exact absurd (hdigits '+' List.mem_cons_self) (by decide)
  · rintro ⟨hne, hdigits, rfl⟩
    exact .plus hne hdigits

theorem widthText_bare_iff {n : Nat} {digits : List Char} (h : ∀ rest, digits ≠ '+' :: rest) :
    WidthText n digits ↔ digits ≠ [] ∧ AllDigits digits ∧ value digits = n := by
  constructor
  · intro htext
    cases htext with
    | plus _ _ => exact absurd rfl (h _)
    | bare hne hdigits => exact ⟨hne, hdigits, rfl⟩
  · rintro ⟨hne, hdigits, rfl⟩
    exact .bare hne hdigits

theorem width?_eq_some_iff {text : String} {n : Nat} :
    width? text = some n ↔ WidthText n text.toList ∧ n ≤ 2 ^ 64 - 1 := by
  have hdigits : ∀ digits : List Char,
      (if !digits.isEmpty && digits.all Char.isDigit && value digits < 2 ^ 64 then
        some (value digits) else none) = some n ↔
      (digits ≠ [] ∧ AllDigits digits ∧ value digits = n) ∧ n ≤ 2 ^ 64 - 1 := by
    intro digits
    have hlt : value digits < 2 ^ 64 ↔ value digits ≤ 2 ^ 64 - 1 := by omega
    rw [Option.ite_none_right_eq_some, Option.some.injEq]
    simp only [Bool.and_eq_true, Bool.not_eq_true', List.isEmpty_eq_false_iff, List.all_eq_true,
      decide_eq_true_iff, hlt, AllDigits, and_assoc]
    constructor
    · rintro ⟨hne, hall, hle, rfl⟩
      exact ⟨hne, hall, rfl, hle⟩
    · rintro ⟨hne, hall, rfl, hle⟩
      exact ⟨hne, hall, hle, rfl⟩
  unfold width?
  dsimp only
  split
  · rename_i rest htext
    rw [hdigits, htext, widthText_plus_iff]
  · rename_i htext
    rw [hdigits, widthText_bare_iff htext]

end PrintOptions

/-! ## Settings -/

/-- A value for one of the options that have a name. -/
inductive Setting
  | textStyle (style : TextStyle)
  | tupleStyle (style : TupleStyle)
  | pretty (b : Bool)
  | width (n : Nat)
  | comment (c : Char)

namespace Setting

def key : Setting → String
  | .textStyle _ => "str_as"
  | .tupleStyle _ => "tuple_as"
  | .pretty _ => "pretty_print"
  | .width _ => "width"
  | .comment _ => "line_comment"

/-- The text stands for the value, under the key of the setting. -/
def Spelled (text : String) : Setting → Prop
  | .textStyle style => text = style.name
  | .tupleStyle style => text = style.name
  | .pretty b => text = if b then "true" else "false"
  | .width n => PrintOptions.WidthText n text.toList ∧ n ≤ 2 ^ 64 - 1
  | .comment c => text.toList = [c]

/-- The options with the one field changed. -/
def apply (o : PrintOptions) : Setting → PrintOptions
  | .textStyle style => { o with textStyle := style }
  | .tupleStyle style => { o with tupleStyle := style }
  | .pretty b => { o with pretty := b }
  | .width n => { o with width := n }
  | .comment c => { o with comment := c }

/-- The field has the value. -/
def Holds (o : PrintOptions) : Setting → Prop
  | .textStyle style => o.textStyle = style
  | .tupleStyle style => o.tupleStyle = style
  | .pretty b => o.pretty = b
  | .width n => o.width = n
  | .comment c => o.comment = c

/-- A call with this key and this value is not refused. -/
def Accepted (key text : String) : Prop := ∃ s : Setting, s.key = key ∧ s.Spelled text

theorem holds_apply_iff {s s' : Setting} (h : s.key = s'.key) (o : PrintOptions) :
    s.Holds (s'.apply o) ↔ s = s' := by
  cases s <;> cases s' <;> simp [key, Holds, apply, eq_comm] at h ⊢

theorem holds_apply_of_ne {s s' : Setting} (h : s.key ≠ s'.key) (o : PrintOptions) :
    s.Holds (s'.apply o) ↔ s.Holds o := by
  cases s <;> cases s' <;> simp [key, Holds, apply] at h ⊢

end Setting

namespace PrintOptions

open Setting

theorem with?_eq_some_iff {o o' : PrintOptions} {key text : String} :
    o.with? key text = some o' ↔ ∃ s : Setting, s.key = key ∧ s.Spelled text ∧ o' = s.apply o := by
  unfold with?
  constructor
  · intro h
    split at h
    · rename_i hkey
      obtain ⟨style, hstyle, rfl⟩ := Option.map_eq_some_iff.mp h
      exact ⟨.textStyle style, hkey.symm, TextStyle.ofName?_eq_some_iff.mp hstyle, rfl⟩
    split at h
    · rename_i hkey
      obtain ⟨style, hstyle, rfl⟩ := Option.map_eq_some_iff.mp h
      exact ⟨.tupleStyle style, hkey.symm, TupleStyle.ofName?_eq_some_iff.mp hstyle, rfl⟩
    split at h
    · rename_i hkey
      obtain ⟨b, hb, rfl⟩ := Option.map_eq_some_iff.mp h
      exact ⟨.pretty b, hkey.symm, bool?_eq_some_iff.mp hb, rfl⟩
    split at h
    · rename_i hkey
      obtain ⟨n, hn, rfl⟩ := Option.map_eq_some_iff.mp h
      exact ⟨.width n, hkey.symm, width?_eq_some_iff.mp hn, rfl⟩
    split at h
    · rename_i hkey
      obtain ⟨c, hc, rfl⟩ := Option.map_eq_some_iff.mp h
      exact ⟨.comment c, hkey.symm, char?_eq_some_iff.mp hc, rfl⟩
    · contradiction
  · rintro ⟨s, rfl, htext, rfl⟩
    cases s with
    | textStyle style => simp [Setting.key, TextStyle.ofName?_eq_some_iff.mpr htext, Setting.apply]
    | tupleStyle style =>
      simp [Setting.key, TupleStyle.ofName?_eq_some_iff.mpr htext, Setting.apply]
    | pretty b => simp [Setting.key, bool?_eq_some_iff.mpr htext, Setting.apply]
    | width n => simp [Setting.key, width?_eq_some_iff.mpr htext, Setting.apply]
    | comment c => simp [Setting.key, char?_eq_some_iff.mpr htext, Setting.apply]

end PrintOptions

/-- Under one key a text stands for one value. -/
theorem Setting.Spelled.unique {s s' : Setting} {text : String} (h : s.Spelled text)
    (h' : s'.Spelled text) (hkey : s.key = s'.key) : s = s' := by
  have hs := PrintOptions.with?_eq_some_iff (o := {}).mpr ⟨s, rfl, h, rfl⟩
  have hs' := PrintOptions.with?_eq_some_iff (o := {}).mpr ⟨s', hkey.symm, h', rfl⟩
  have happly : s.apply {} = s'.apply {} := Option.some.inj (hs.symm.trans hs')
  exact (Setting.holds_apply_iff hkey {}).mp (happly ▸ (Setting.holds_apply_iff rfl {}).mpr rfl)

namespace PrintOptions

variable {o : PrintOptions} {key text : String}

theorem set_eq_ok_iff {o' : PrintOptions} : o.set key text = .ok o' ↔
    ∃ s : Setting, s.key = key ∧ s.Spelled text ∧ o' = s.apply o := by
  rw [← with?_eq_some_iff]
  unfold set
  cases o.with? key text <;> simp

/-- A refusal names the key and the value of the call. -/
theorem set_eq_error_iff {e : PrintError} : o.set key text = .error e ↔
    ¬ Setting.Accepted key text ∧ e = .invalidOption key text := by
  have hrefused : o.with? key text = none ↔ ¬ Setting.Accepted key text := by
    rw [Option.eq_none_iff_forall_ne_some]
    constructor
    · rintro h ⟨s, hkey, htext⟩
      exact h _ (with?_eq_some_iff.mpr ⟨s, hkey, htext, rfl⟩)
    · intro h o' ho'
      obtain ⟨s, hkey, htext, -⟩ := with?_eq_some_iff.mp ho'
      exact h ⟨s, hkey, htext⟩
  rw [← hrefused]
  unfold set
  cases o.with? key text <;> simp [eq_comm]

/-! ## Calls one after another -/

/-- The options after a call: a call that is refused leaves them as they were. -/
def afterSet (o : PrintOptions) (call : String × String) : PrintOptions :=
  match o.set call.1 call.2 with
  | .ok o' => o'
  | .error _ => o

theorem afterSet_of_spelled {s : Setting} (h : s.Spelled text) :
    o.afterSet (s.key, text) = s.apply o := by
  rw [afterSet, set_eq_ok_iff.mpr ⟨s, rfl, h, rfl⟩]

theorem afterSet_of_not_accepted (h : ¬ Setting.Accepted key text) :
    o.afterSet (key, text) = o := by
  rw [afterSet, set_eq_error_iff.mpr ⟨h, rfl⟩]

/-- The options after all calls, one after another. -/
def afterSets (o : PrintOptions) (calls : List (String × String)) : PrintOptions :=
  calls.foldl afterSet o

end PrintOptions

namespace Setting

/-- No call with this key is accepted. -/
def NoneAccepted (key : String) (calls : List (String × String)) : Prop :=
  ∀ text, (key, text) ∈ calls → ¬ Accepted key text

/-- The last accepted call with the key of the setting gives its value. -/
def LastAccepted (calls : List (String × String)) (s : Setting) : Prop :=
  ∃ before text after, calls = before ++ (s.key, text) :: after ∧ s.Spelled text ∧
    NoneAccepted s.key after

variable {s : Setting} {key text : String} {calls : List (String × String)}

theorem noneAccepted_cons :
    NoneAccepted s.key ((key, text) :: calls) ↔
      (s.key = key → ¬ Accepted key text) ∧ NoneAccepted s.key calls := by
  simp only [NoneAccepted, List.mem_cons, Prod.mk.injEq, or_imp, and_imp, forall_and]
  constructor
  · rintro ⟨hcall, hcalls⟩
    exact ⟨fun hkey => hkey ▸ hcall text hkey rfl, hcalls⟩
  · rintro ⟨hcall, hcalls⟩
    refine ⟨fun text' hkey htext => ?_, hcalls⟩
    rw [htext, hkey]
    exact hcall hkey

theorem lastAccepted_cons :
    s.LastAccepted ((key, text) :: calls) ↔
      s.LastAccepted calls ∨ (s.key = key ∧ s.Spelled text) ∧ NoneAccepted s.key calls := by
  constructor
  · rintro ⟨before, text', after, hcalls, htext, hnone⟩
    cases before with
    | nil =>
      cases hcalls
      exact .inr ⟨⟨rfl, htext⟩, hnone⟩
    | cons call before =>
      rw [List.cons_append, List.cons.injEq] at hcalls
      exact .inl ⟨before, text', after, hcalls.2, htext, hnone⟩
  · rintro (⟨before, text', after, rfl, htext, hnone⟩ | ⟨⟨rfl, htext⟩, hnone⟩)
    · exact ⟨(key, text) :: before, text', after, rfl, htext, hnone⟩
    · exact ⟨[], text, calls, rfl, htext, hnone⟩

/-- One call: its own setting holds afterwards if it is accepted, and what held before
holds still unless the key is that of the call. -/
theorem holds_afterSet_iff {o : PrintOptions} :
    s.Holds (o.afterSet (key, text)) ↔
      s.key = key ∧ s.Spelled text ∨ s.Holds o ∧ (s.key = key → ¬ Accepted key text) := by
  by_cases haccepted : Accepted key text
  · obtain ⟨s', rfl, htext⟩ := haccepted
    rw [PrintOptions.afterSet_of_spelled htext]
    by_cases hkey : s.key = s'.key
    · rw [holds_apply_iff hkey]
      constructor
      · rintro rfl
        exact .inl ⟨rfl, htext⟩
      · rintro (⟨-, hspelled⟩ | ⟨-, hrefused⟩)
        · exact hspelled.unique htext hkey
        · exact absurd ⟨s', rfl, htext⟩ (hrefused hkey)
    · rw [holds_apply_of_ne hkey]
      simp [hkey]
  · have hspelled : ¬ (s.key = key ∧ s.Spelled text) := fun h => haccepted ⟨s, h⟩
    simp [PrintOptions.afterSet_of_not_accepted haccepted, haccepted, hspelled]

/-- Any number of calls: the last accepted one with its key decides. -/
theorem holds_afterSets_iff {o : PrintOptions} :
    s.Holds (o.afterSets calls) ↔
      s.LastAccepted calls ∨ s.Holds o ∧ NoneAccepted s.key calls := by
  -- from the first call on, so the options that the others start from vary
  induction calls generalizing o with
  | nil => simp [PrintOptions.afterSets, LastAccepted, NoneAccepted]
  | cons call rest ih =>
    obtain ⟨key, text⟩ := call
    have hstep : o.afterSets ((key, text) :: rest) = (o.afterSet (key, text)).afterSets rest := rfl
    rw [hstep, ih, holds_afterSet_iff, lastAccepted_cons, noneAccepted_cons, or_and_right,
      or_assoc, and_assoc (a := s.Holds o)]

/-- Five keys, and what each of them takes. -/
theorem accepted_iff : Accepted key text ↔
    key = "str_as" ∧ (text = "string" ∨ text = "symbol") ∨
    key = "tuple_as" ∧ (text = "list" ∨ text = "array") ∨
    key = "pretty_print" ∧ (text = "true" ∨ text = "false") ∨
    key = "width" ∧ (∃ n, PrintOptions.WidthText n text.toList ∧ n ≤ 2 ^ 64 - 1) ∨
    key = "line_comment" ∧ ∃ c, text.toList = [c] := by
  constructor
  · rintro ⟨s, rfl, htext⟩
    cases s with
    | textStyle style =>
      refine .inl ⟨rfl, ?_⟩
      cases style with
      | string => exact .inl htext
      | symbol => exact .inr htext
    | tupleStyle style =>
      refine .inr (.inl ⟨rfl, ?_⟩)
      cases style with
      | list => exact .inl htext
      | array => exact .inr htext
    | pretty b =>
      refine .inr (.inr (.inl ⟨rfl, ?_⟩))
      cases b with
      | true => exact .inl htext
      | false => exact .inr htext
    | width n => exact .inr (.inr (.inr (.inl ⟨rfl, n, htext⟩)))
    | comment c => exact .inr (.inr (.inr (.inr ⟨rfl, c, htext⟩)))
  · rintro (⟨rfl, rfl | rfl⟩ | ⟨rfl, rfl | rfl⟩ | ⟨rfl, rfl | rfl⟩ | ⟨rfl, n, htext⟩ |
      ⟨rfl, c, htext⟩)
    · exact ⟨.textStyle .string, rfl, rfl⟩
    · exact ⟨.textStyle .symbol, rfl, rfl⟩
    · exact ⟨.tupleStyle .list, rfl, rfl⟩
    · exact ⟨.tupleStyle .array, rfl, rfl⟩
    · exact ⟨.pretty true, rfl, rfl⟩
    · exact ⟨.pretty false, rfl, rfl⟩
    · exact ⟨.width n, rfl, htext⟩
    · exact ⟨.comment c, rfl, htext⟩

end Setting

/-! ## The names -/

namespace PrintOptions

/-- The three names that no call can set. -/
def names (o : PrintOptions) : List String := [o.nilName, o.trueName, o.falseName]

theorem names_afterSet (o : PrintOptions) (call : String × String) :
    (o.afterSet call).names = o.names := by
  obtain ⟨key, text⟩ := call
  by_cases haccepted : Setting.Accepted key text
  · obtain ⟨s, rfl, htext⟩ := haccepted
    rw [afterSet_of_spelled htext]
    cases s <;> rfl
  · rw [afterSet_of_not_accepted haccepted]

theorem names_afterSets (o : PrintOptions) (calls : List (String × String)) :
    (o.afterSets calls).names = o.names := by
  induction calls generalizing o with
  | nil => rfl
  | cons call rest ih => exact (ih (o.afterSet call)).trans (names_afterSet o call)

end PrintOptions

/-- What a call does: it changes the one field that its setting is for, or it is refused
with its own key and value and changes nothing. Which values a key takes. After any
calls, a field has the value of the last accepted call with its key, or the one it had
at the start if there was no such call, and the names are those of the start. -/
theorem set_by_name :
    (∀ (o o' : PrintOptions) key text, o.set key text = .ok o' ↔
      ∃ s : Setting, s.key = key ∧ s.Spelled text ∧ o' = s.apply o) ∧
    (∀ (o : PrintOptions) key text e, o.set key text = .error e ↔
      ¬ Setting.Accepted key text ∧ e = .invalidOption key text) ∧
    (∀ (o : PrintOptions) calls key text, ¬ Setting.Accepted key text →
      o.afterSets (calls ++ [(key, text)]) = o.afterSets calls) ∧
    (∀ key text, Setting.Accepted key text ↔
      key = "str_as" ∧ (text = "string" ∨ text = "symbol") ∨
      key = "tuple_as" ∧ (text = "list" ∨ text = "array") ∨
      key = "pretty_print" ∧ (text = "true" ∨ text = "false") ∨
      key = "width" ∧ (∃ n, PrintOptions.WidthText n text.toList ∧ n ≤ 2 ^ 64 - 1) ∨
      key = "line_comment" ∧ ∃ c, text.toList = [c]) ∧
    (∀ (o : PrintOptions) calls (s : Setting), s.Holds (o.afterSets calls) ↔
      s.LastAccepted calls ∨ s.Holds o ∧ Setting.NoneAccepted s.key calls) ∧
    ∀ (o : PrintOptions) calls, (o.afterSets calls).names = o.names := by
  refine ⟨fun _ _ _ _ => PrintOptions.set_eq_ok_iff, fun _ _ _ _ => PrintOptions.set_eq_error_iff,
    fun o calls key text h => ?_, fun _ _ => Setting.accepted_iff,
    fun _ _ _ => Setting.holds_afterSets_iff, PrintOptions.names_afterSets⟩
  rw [PrintOptions.afterSets, List.foldl_append]
  exact PrintOptions.afterSet_of_not_accepted h

/-- A width behind leading zeros that is not followed by a better one. -/
theorem set_by_name_width :
    ¬ Setting.Accepted "width" "-1" ∧
    PrintOptions.afterSets {} ([("width", "7"), ("width", "+0040")] ++ [("width", "-1")]) =
      PrintOptions.afterSets {} [("width", "7"), ("width", "+0040")] ∧
    (PrintOptions.afterSets {} [("width", "7"), ("width", "+0040")]).width = 40 := by
  have hset : PrintOptions.set {} "width" "-1" = .error (.invalidOption "width" "-1") := rfl
  have hrefused := (PrintOptions.set_eq_error_iff.mp hset).1
  exact ⟨hrefused, set_by_name.2.2.1 {} _ _ _ hrefused, by decide⟩

end SExpr
