import MarketScan.CommandLine
import MarketScan.Proofs.Json.Injective
import Mathlib.Data.Bool.AllAny

/-!
# The readable form is the sent form with blanks

A readable text is made by the same writer as the text that is sent, with blanks between the items.
Whoever deletes spaces and line feeds from it, but for those in strings, is left with the text that is
sent. To know what is in a string it is enough to watch quotation marks and backslashes from left to
right, because a string is written so that its first quotation mark without a backslash closes it.

* `Json.Place`, `Json.erase` — deleting blanks outside of strings
* `Json.erase_writeString` — a string is kept as it is, whatever is in it
* `Json.erase_write` — a value written with blanks becomes the value written without
* `withoutBlanks_readable` — queries, tables and what the program prints
-/

namespace MarketScan

namespace Json

/-! ## Deleting blanks -/

/-- Where a character of a text stands: outside of strings, in a string, or after a backslash there. -/
inductive Place where
  | outside
  | inside
  | escaped
deriving DecidableEq

/-- The place after a character. -/
def Place.next : Place → Char → Place
  | .outside, c => if c = '"' then .inside else .outside
  | .inside, c => if c = '"' then .outside else if c = '\\' then .escaped else .inside
  | .escaped, _ => .inside

/-- The text without the spaces and line feeds that stand outside of strings. -/
def erase (place : Place) : List Char → List Char
  | [] => []
  | c :: s =>
    if place = .outside ∧ (c = ' ' ∨ c = '\n') then erase place s else c :: erase (place.next c) s

def withoutBlanks (text : String) : String := String.ofList (erase .outside text.toList)

theorem erase_outside_blanks {bs : List Char} (h : ∀ c ∈ bs, c = ' ' ∨ c = '\n') (rest : List Char) :
    erase .outside (bs ++ rest) = erase .outside rest := by
  induction bs with
  | nil => rfl
  | cons c bs ih =>
    obtain ⟨hc, hbs⟩ := List.forall_mem_cons.mp h
    rw [List.cons_append, erase, if_pos ⟨rfl, hc⟩, ih hbs]

/-- A character that is no blank and opens no string. -/
def IsKept (c : Char) : Prop := c ≠ ' ' ∧ c ≠ '\n' ∧ c ≠ '"'

instance : DecidablePred IsKept := fun _ => inferInstanceAs (Decidable (_ ∧ _))

theorem erase_outside_cons {c : Char} (h : IsKept c) (rest : List Char) :
    erase .outside (c :: rest) = c :: erase .outside rest := by
  obtain ⟨hspace, hline, hquote⟩ := h
  rw [erase, if_neg fun h => h.2.elim hspace hline, Place.next, if_neg hquote]

theorem erase_outside_append {cs : List Char} (h : ∀ c ∈ cs, IsKept c) (rest : List Char) :
    erase .outside (cs ++ rest) = cs ++ erase .outside rest := by
  induction cs with
  | nil => rfl
  | cons c cs ih =>
    obtain ⟨hc, hcs⟩ := List.forall_mem_cons.mp h
    rw [List.cons_append, erase_outside_cons hc, ih hcs, List.cons_append]

/-! ## Strings -/

/-- In a string every character is kept. -/
theorem erase_inside (c : Char) (s : List Char) :
    erase .inside (c :: s) = c :: erase (Place.inside.next c) s :=
  if_neg (by rintro ⟨⟨⟩, -⟩)

theorem erase_inside_plain {c : Char} (hquote : c ≠ '"') (hback : c ≠ '\\') (s : List Char) :
    erase .inside (c :: s) = c :: erase .inside s := by
  rw [erase_inside, Place.next, if_neg hquote, if_neg hback]

/-- After a backslash even a quotation mark is one more character. -/
theorem erase_inside_backslash (c : Char) (s : List Char) :
    erase .inside ('\\' :: c :: s) = '\\' :: c :: erase .inside s := by
  have hescaped : erase .escaped (c :: s) = c :: erase .inside s := if_neg (by rintro ⟨⟨⟩, -⟩)
  rw [erase_inside, Place.next, if_neg (by decide), if_pos rfl, hescaped]

/-- A character as it is written does not end the string that it stands in. -/
theorem erase_escapeChar (c : Char) (s : List Char) :
    erase .inside (escapeChar c ++ s) = escapeChar c ++ erase .inside s := by
  rcases Grammar.escapeChar_cases c with ⟨he, hquote, hback, -⟩ | ⟨d, he, -⟩ | ⟨a, b, he, hab, -⟩
  · rw [he]
    exact erase_inside_plain hquote hback s
  · rw [he]
    exact erase_inside_backslash d s
  · have hdigit {d : Char} (hd : (Grammar.hexValue? d).isSome = true) : d ≠ '"' ∧ d ≠ '\\' := by
      constructor <;> rintro rfl <;> cases hd
    have ha : (Grammar.hexValue? a).isSome = true := by
      cases hv : Grammar.hexValue? a with
      | none => simp [Grammar.hexQuad?, hv] at hab
      | some n => rfl
    have hb : (Grammar.hexValue? b).isSome = true := by
      cases hv : Grammar.hexValue? b with
      | none => simp [Grammar.hexQuad?, hv] at hab
      | some n => rfl
    rw [he]
    simp only [List.cons_append, List.nil_append]
    rw [erase_inside_backslash, erase_inside_plain (by decide) (by decide),
      erase_inside_plain (by decide) (by decide), erase_inside_plain (hdigit ha).1 (hdigit ha).2,
      erase_inside_plain (hdigit hb).1 (hdigit hb).2]

theorem erase_flatMap_escapeChar (rest : List Char) : ∀ cs : List Char,
    erase .inside (cs.flatMap escapeChar ++ '"' :: rest) =
      cs.flatMap escapeChar ++ '"' :: erase .outside rest
  | [] => erase_inside '"' rest
  | c :: cs => by
    rw [List.flatMap_cons, List.append_assoc, erase_escapeChar, erase_flatMap_escapeChar rest cs,
      List.append_assoc]

/-- **A string is kept as it is, whatever is in it.** -/
theorem erase_writeString (s : String) (rest : List Char) :
    erase .outside (writeString s ++ rest) = writeString s ++ erase .outside rest := by
  rw [writeString_append, writeString_append, erase, if_neg (by decide), Place.next, if_pos rfl,
    erase_flatMap_escapeChar]

/-! ## Values -/

theorem Number.isKept_of_mem_write {n : Number} : ∀ c ∈ n.write, IsKept c := by
  intro c hc
  have hnumeric := isNumeric_of_mem_write hc
  refine ⟨?_, ?_, ?_⟩ <;> rintro rfl <;> revert hnumeric <;> decide

/-- A spacing that puts nothing but spaces and line feeds between items. -/
structure Spacing.IsErased (S : Spacing) : Prop where
  line : ∀ level, ∀ c ∈ S.line level, c = ' ' ∨ c = '\n'
  afterColon : ∀ c ∈ S.afterColon, c = ' ' ∨ c = '\n'

theorem Spacing.isErased_indented : Spacing.indented.IsErased where
  line _ _ hc := (List.mem_cons.mp hc).symm.imp_left List.eq_of_mem_replicate
  afterColon _ hc := .inl (List.mem_singleton.mp hc)

section Values

variable {S : Spacing} (hS : S.IsErased)
include hS

/-- Of a mark and the blanks before the next item the mark is kept. -/
theorem erase_mark {c : Char} (hc : IsKept c) (level : Nat) (rest : List Char) :
    erase .outside (c :: (S.line level ++ rest)) = c :: erase .outside rest := by
  rw [erase_outside_cons hc, erase_outside_blanks (hS.line level)]

/-- So it is of the blanks and the bracket at the end. -/
theorem erase_close {c : Char} (hc : IsKept c) (level : Nat) (rest : List Char) :
    erase .outside (S.line level ++ c :: rest) = c :: erase .outside rest := by
  rw [erase_outside_blanks (hS.line level), erase_outside_cons hc]

/-- A name and its colon are kept. -/
theorem erase_name (key : String) (rest : List Char) :
    erase .outside (writeString key ++ ':' :: (S.afterColon ++ rest)) =
      writeString key ++ ':' :: erase .outside rest := by
  have hcolon : IsKept ':' := by decide
  rw [erase_writeString, erase_outside_cons hcolon, erase_outside_blanks hS.afterColon]

mutual

/-- **A value written with blanks becomes the value written without.** -/
theorem erase_write (level : Nat) : ∀ (j : Json) (rest : List Char),
    erase .outside (write S level j rest) = write .none level j (erase .outside rest)
  | .null, rest | .bool true, rest | .bool false, rest =>
    erase_outside_append (List.all_iff_forall_prop.mp (by decide)) rest
  | .number n, rest => erase_outside_append n.isKept_of_mem_write rest
  | .string s, rest => erase_writeString s rest
  | .array [], rest => by
    rw [write, erase_outside_cons (by decide), erase_outside_cons (by decide)]
    rfl
  | .object [], rest => by
    rw [write, erase_outside_cons (by decide), erase_outside_cons (by decide)]
    rfl
  | .array (item :: items), rest => by
    rw [write, List.cons_append, erase_mark hS (by decide), erase_write (level + 1) item,
      erase_writeItems level items]
    rfl
  | .object ((key, value) :: fields), rest => by
    rw [write_object_cons, writeMembers, erase_mark hS (by decide), erase_name hS,
      erase_write (level + 1) value, erase_writeFields level fields, write_object_cons]
    rfl

theorem erase_writeItems (level : Nat) : ∀ (items : List Json) (rest : List Char),
    erase .outside (writeItems S level items rest) =
      writeItems .none level items (erase .outside rest)
  | [], rest => erase_close hS (by decide) level rest
  | item :: items, rest => by
    rw [writeItems, List.cons_append, erase_mark hS (by decide), erase_write (level + 1) item,
      erase_writeItems level items]
    rfl

theorem erase_writeFields (level : Nat) : ∀ (fields : List (String × Json)) (rest : List Char),
    erase .outside (writeFields S level fields rest) =
      writeFields .none level fields (erase .outside rest)
  | [], rest => erase_close hS (by decide) level rest
  | (key, value) :: fields, rest => by
    rw [writeFields_cons, writeMembers, erase_mark hS (by decide), erase_name hS,
      erase_write (level + 1) value, erase_writeFields level fields, writeFields_cons]
    rfl

end

end Values

/-! ## Texts -/

/-- Blanks behind the value are deleted too. -/
theorem withoutBlanks_pretty_append (j : Json) {blanks : String}
    (h : ∀ c ∈ blanks.toList, c = ' ' ∨ c = '\n') : withoutBlanks (j.pretty ++ blanks) = j.compact := by
  have htext : (j.pretty ++ blanks).toList = write .indented 0 j blanks.toList := by
    rw [String.toList_append, pretty, String.toList_ofList, ← write_append, List.nil_append]
  have hblanks : erase .outside blanks.toList = [] := by
    have hall := erase_outside_blanks h []
    rwa [List.append_nil] at hall
  rw [withoutBlanks, htext, erase_write Spacing.isErased_indented, hblanks, compact]

theorem withoutBlanks_pretty (j : Json) : withoutBlanks j.pretty = j.compact := by
  have htext := @withoutBlanks_pretty_append j "" nofun
  rwa [String.append_empty] at htext

end Json

/-- **Without its blanks the readable form is the form that is sent**, for every query and for every
table, which the program prints with a line feed behind it. -/
theorem withoutBlanks_readable :
    (∀ q : Query, Json.withoutBlanks q.prettyText = q.text) ∧
    (∀ t : Table, Json.withoutBlanks t.json.pretty = t.json.compact ∧
      Json.withoutBlanks (CommandLine.print t) = t.json.compact) :=
  ⟨fun q => q.document.json.withoutBlanks_pretty, fun t =>
    ⟨t.json.withoutBlanks_pretty,
      t.json.withoutBlanks_pretty_append (List.forall_mem_singleton.mpr (.inr rfl))⟩⟩

end MarketScan
