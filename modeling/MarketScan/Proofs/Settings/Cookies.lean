import MarketScan.Proofs.Entries
import MarketScan.Proofs.Except
import MarketScan.Settings.Cookies

/-!
# The header of cookies is read back

The header joins cookies by `; ` and a name with its value by `=`. Where no name holds `=` or `;` and no
value holds `;`, the header is cut at each `; ` and every piece at its first `=`, and what comes out are
the cookies. A value may hold `=`, and names and values may be empty or begin and end with blanks.

* `Cookies.get?_ofList` — what is found in cookies that were set one after the other
* `Cookies.readHeader?` — the pairs in a header
* `Cookies.pieces_intercalate` — pieces joined by `; ` are cut where they were joined
* `Cookies.readHeader?_header?` — the cookies are read back, so cookies with one header are the same
-/

namespace MarketScan.Cookies

/-! ## Cookies by name -/

theorem get?_insertEntry (key name value : String) (es : List (String × String)) :
    Entries.get? key (insertEntry name value es) =
      if name = key then some value else Entries.get? key es := by
  induction es with
  | nil => rfl
  | cons e es ih =>
    obtain ⟨n, v⟩ := e
    rw [insertEntry]
    split
    · rfl
    · split
      · next heq =>
        subst heq
        rw [Entries.get?, Entries.get?]
        split <;> rfl
      · next hne =>
        rw [Entries.get?, Entries.get?, ih]
        by_cases hn : n = key
        · subst hn
          rw [if_pos rfl, if_pos rfl, if_neg hne]
        · rw [if_neg hn, if_neg hn]

theorem get?_ofList (key : String) (pairs : List (String × String)) :
    Entries.get? key (ofList pairs).entries = Entries.lastValue key pairs := by
  induction pairs using List.reverseRecOn with
  | nil => rfl
  | append_singleton pairs e ih =>
    rw [Entries.lastValue_concat, ← ih, ofList, List.foldl_append]
    exact get?_insertEntry key e.1 e.2 _

theorem pairwise_entries (c : Cookies) : c.entries.Pairwise fun a b => a.1 < b.1 :=
  List.pairwise_map.mp c.sorted

theorem nodup_keys (c : Cookies) : (Entries.keys c.entries).Nodup := c.sorted.imp String.ne_of_lt

theorem nodup_entries (c : Cookies) : c.entries.Nodup :=
  c.pairwise_entries.imp fun h heq => String.ne_of_lt h (congrArg Prod.fst heq)

theorem mem_entries_iff {c : Cookies} {e : String × String} :
    e ∈ c.entries ↔ Entries.get? e.1 c.entries = some e.2 :=
  ⟨Entries.get?_of_mem c.nodup_keys, Entries.mem_of_get?⟩

/-- Cookies are known by what is found under each name, as their order is that of the names. -/
theorem eq_of_get? {c d : Cookies}
    (h : ∀ name, Entries.get? name c.entries = Entries.get? name d.entries) : c = d := by
  have hmem (e : String × String) : e ∈ c.entries ↔ e ∈ d.entries := by
    rw [mem_entries_iff, mem_entries_iff, h]
  have hperm : c.entries.Perm d.entries :=
    (List.perm_ext_iff_of_nodup c.nodup_entries d.nodup_entries).mpr hmem
  have hentries : c.entries = d.entries :=
    hperm.eq_of_pairwise (fun _ _ _ _ hlt hgt => absurd hgt (String.lt_asymm hlt))
      c.pairwise_entries d.pairwise_entries
  cases c
  cases d
  cases hentries
  rfl

/-- What pairs leave behind is told by the last value of each name alone. -/
theorem ofList_eq_iff {pairs : List (String × String)} {c : Cookies} :
    ofList pairs = c ↔ ∀ name, Entries.lastValue name pairs = Entries.get? name c.entries := by
  simp only [← get?_ofList]
  constructor
  · rintro rfl name
    rfl
  · exact eq_of_get?

/-! ## Reading a header -/

/-- The parts of a text between the places where `; ` stands. -/
def pieces : List Char → List (List Char)
  | [] => [[]]
  | [c] => [[c]]
  | c :: d :: s =>
    if c = ';' ∧ d = ' ' then [] :: pieces s else (pieces (d :: s)).modifyHead (c :: ·)

/-- The name and the value on the two sides of the first `=`. -/
def cut? (piece : List Char) : Option (String × String) :=
  match piece.dropWhile (· ≠ '=') with
  | [] => Option.none
  | _ :: value => some (String.ofList (piece.takeWhile (· ≠ '=')), String.ofList value)

/-- The pairs in a header. -/
def readHeader? (header : String) : Option (List (String × String)) :=
  (pieces header.toList).mapM cut?

theorem pieces_cons {c : Char} (hc : c ≠ ';') (s : List Char) :
    pieces (c :: s) = (pieces s).modifyHead (c :: ·) := by
  cases s with
  | nil => rfl
  | cons d s => rw [pieces, if_neg fun h => hc h.1]

theorem pieces_of_not_mem {piece : List Char} (h : ';' ∉ piece) : pieces piece = [piece] := by
  induction piece with
  | nil => rfl
  | cons c piece ih =>
    rw [List.mem_cons, not_or] at h
    rw [pieces_cons (Ne.symm h.1), ih h.2, List.modifyHead_cons]

/-- A piece ends at the first `; `, as no semicolon is in it. -/
theorem pieces_append {piece : List Char} (h : ';' ∉ piece) (s : List Char) :
    pieces (piece ++ ';' :: ' ' :: s) = piece :: pieces s := by
  induction piece with
  | nil => rfl
  | cons c piece ih =>
    rw [List.mem_cons, not_or] at h
    rw [List.cons_append, pieces_cons (Ne.symm h.1), ih h.2, List.modifyHead_cons]

/-- **Pieces without semicolons are cut where they were joined.** -/
theorem pieces_intercalate {ps : List (List Char)} (hne : ps ≠ []) (h : ∀ p ∈ ps, ';' ∉ p) :
    pieces ([';', ' '].intercalate ps) = ps := by
  induction ps with
  | nil => exact absurd rfl hne
  | cons p ps ih =>
    obtain ⟨hp, hps⟩ := List.forall_mem_cons.mp h
    cases ps with
    | nil =>
      rw [List.intercalate_singleton]
      exact pieces_of_not_mem hp
    | cons p' ps =>
      have hcut := pieces_append hp ([';', ' '].intercalate (p' :: ps))
      rw [ih (List.cons_ne_nil p' ps) hps] at hcut
      rw [List.intercalate_cons_cons, List.append_assoc]
      exact hcut

/-- A name without `=` ends at the first one. -/
theorem cut?_append {name : List Char} (h : '=' ∉ name) (value : List Char) :
    cut? (name ++ '=' :: value) = some (String.ofList name, String.ofList value) := by
  have hname : ∀ c ∈ name, decide (c ≠ '=') = true := fun c hc => decide_eq_true fun heq => h (heq ▸ hc)
  rw [cut?, List.dropWhile_append_of_pos hname, List.takeWhile_append_of_pos hname]
  simp

/-! ## The header -/

/-- A cookie as it stands in the header. -/
def piece (e : String × String) : List Char := e.1.toList ++ '=' :: e.2.toList

theorem header?_eq_none_iff {c : Cookies} : c.header? = .none ↔ c.entries = [] := by
  rw [header?]
  cases c.entries <;> simp

theorem toList_header {c : Cookies} {header : String} (h : c.header? = some header) :
    header.toList = [';', ' '].intercalate (c.entries.map piece) := by
  rw [header?] at h
  split at h
  · cases h
  · cases h
    rw [String.toList_intercalate, List.map_map]
    congr 1
    refine List.map_congr_left fun e _ => ?_
    simp [piece]

theorem forall_mem_intercalate {α : Type} {p : α → Prop} {sep : List α} (hsep : ∀ x ∈ sep, p x)
    {ps : List (List α)} : (∀ x ∈ sep.intercalate ps, p x) ↔ ∀ q ∈ ps, ∀ x ∈ q, p x := by
  induction ps with
  | nil => simp
  | cons q ps ih =>
    cases ps with
    | nil => simp
    | cons q' ps =>
      simp only [List.intercalate_cons_cons, List.forall_mem_append, and_iff_left hsep, ih,
        List.forall_mem_cons]

/-- What is so of the marks is so of the whole header when it is so of every name and value. -/
theorem forall_mem_header {p : Char → Prop} (hmarks : ∀ x ∈ [';', ' ', '='], p x) {c : Cookies}
    {header : String} (h : c.header? = some header) : (∀ x ∈ header.toList, p x) ↔
      ∀ e ∈ c.entries, (∀ x ∈ e.1.toList, p x) ∧ ∀ x ∈ e.2.toList, p x := by
  simp only [List.forall_mem_cons] at hmarks
  obtain ⟨hsemicolon, hblank, hequals, -⟩ := hmarks
  rw [toList_header h, forall_mem_intercalate (by simp [hsemicolon, hblank]), List.forall_mem_map]
  refine forall₂_congr fun e _ => ?_
  rw [piece, List.forall_mem_append, List.forall_mem_cons, and_iff_right hequals]

/-- Cookies of which the header tells each name from its value and each value from the next name. -/
structure Separable (c : Cookies) : Prop where
  names : ∀ e ∈ c.entries, '=' ∉ e.1.toList ∧ ';' ∉ e.1.toList
  values : ∀ e ∈ c.entries, ';' ∉ e.2.toList

variable {c d : Cookies}

theorem Separable.not_mem_piece (h : c.Separable) {e : String × String} (he : e ∈ c.entries) :
    ';' ∉ piece e := by
  have hname := (h.names e he).2
  have hvalue := h.values e he
  simp [piece, hname, hvalue]

theorem Separable.cut?_piece (h : c.Separable) {e : String × String} (he : e ∈ c.entries) :
    cut? (piece e) = some e := by
  rw [piece, cut?_append (h.names e he).1, String.ofList_toList, String.ofList_toList]

/-- Each piece is cut into its cookie. -/
theorem mapM_cut?_piece {es : List (String × String)} (h : ∀ e ∈ es, cut? (piece e) = some e) :
    (es.map piece).mapM cut? = some es := by
  induction es with
  | nil => rfl
  | cons e es ih =>
    obtain ⟨he, hes⟩ := List.forall_mem_cons.mp h
    rw [List.map_cons, List.mapM_cons, he, ih hes]
    rfl

theorem Separable.readHeader?_header (h : c.Separable) {header : String}
    (hheader : c.header? = some header) : readHeader? header = some c.entries := by
  have hne : c.entries.map piece ≠ [] := by
    intro hnil
    rw [header?_eq_none_iff.mpr (List.map_eq_nil_iff.mp hnil)] at hheader
    cases hheader
  have hpieces : ∀ p ∈ c.entries.map piece, ';' ∉ p :=
    List.forall_mem_map.mpr fun _ he => h.not_mem_piece he
  rw [readHeader?, toList_header hheader, pieces_intercalate hne hpieces,
    mapM_cut?_piece fun _ he => h.cut?_piece he]

/-- Cookies with one header are the same. -/
theorem Separable.eq_of_header? (hc : c.Separable) (hd : d.Separable) (h : c.header? = d.header?) :
    c = d := by
  cases hheader : c.header? with
  | none =>
    have hnone := hheader
    rw [h, header?_eq_none_iff] at hnone
    rw [header?_eq_none_iff] at hheader
    exact eq_of_get? fun name => by rw [hheader, hnone]
  | some header =>
    have hread := hc.readHeader?_header hheader
    rw [h] at hheader
    rw [hd.readHeader?_header hheader] at hread
    exact eq_of_get? fun name => by rw [Option.some.inj hread]

/-- **The header is read back as the cookies, each of them once and in the order of the names.** There
is none for no cookies only. Where headers are the same the cookies are, and these do not depend on the
order in which the names were set. -/
theorem readHeader?_header? (hc : c.Separable) :
    (c.header? = .none ↔ c.entries = []) ∧
    (∀ header, c.header? = some header → ∃ es, readHeader? header = some es ∧
      (es.Pairwise fun a b => a.1 < b.1) ∧ es = c.entries) ∧
    (∀ d : Cookies, d.Separable → (c.header? = d.header? ↔ c = d)) ∧
    ∀ pairs, ofList pairs = c ↔
      ∀ name, Entries.lastValue name pairs = Entries.get? name c.entries := by
  refine ⟨header?_eq_none_iff, fun header hheader => ?_, fun d hd => ⟨hc.eq_of_header? hd, ?_⟩,
    fun pairs => ofList_eq_iff⟩
  · exact ⟨c.entries, hc.readHeader?_header hheader, c.pairwise_entries, rfl⟩
  · rintro rfl
    rfl

/-- Cookies set out of order, one of them twice, with blanks at the ends and without a name or value. -/
def awkward : Cookies := ofList [("b ", "1"), ("", "=x=y"), (" a", " "), ("b ", "")]

theorem readHeader?_awkward :
    awkward.Separable ∧ awkward.header? = some "==x=y;  a= ; b =" ∧
      readHeader? "==x=y;  a= ; b =" = some [("", "=x=y"), (" a", " "), ("b ", "")] := by
  have hsep : awkward.Separable := ⟨by decide +kernel, by decide +kernel⟩
  have hheader : awkward.header? = some "==x=y;  a= ; b =" := by decide +kernel
  obtain ⟨es, hread, -, hes⟩ := (readHeader?_header? hsep).2.1 _ hheader
  refine ⟨hsep, hheader, ?_⟩
  rw [hread, hes]
  decide +kernel

end MarketScan.Cookies
