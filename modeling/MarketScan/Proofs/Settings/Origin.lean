import MarketScan.Proofs.Settings.Environment
import MarketScan.Proofs.Settings.Tree
import MarketScan.Proofs.Toml.Texts

/-!
# Settings from a file and from a text

A file gives the settings that its text gives, and where one of them is at fault so is the other, for
the same reason. All that reading from a file adds is the name of the file in what is remembered of a
value, and from there in the message of a fault. So the name is taken out again, at each stage of the
reading, and nothing but the reading of the text is left.

* `Node.anonymous`, `Fault.anonymous` — without the name of a file
* `ofTree_anonymous`, `readToml_anonymous` — the stages do not look at the name
* `load_anonymous` — loading a file, but for its name, is reading its text
-/

namespace MarketScan.Settings

open Entries (mapValues)

/-! ## Nodes without the name of a file -/

namespace Node

mutual

/-- The node as if it came from no file. -/
def anonymous : Node → Node
  | .scalar s _ => .scalar s none
  | .sequence _ => .sequence none
  | .table es => .table (anonymousEntries es)

def anonymousEntries : List (String × Node) → List (String × Node)
  | [] => []
  | (key, n) :: es => (key, anonymous n) :: anonymousEntries es

end

theorem anonymousEntries_eq_mapValues (es : List (String × Node)) :
    anonymousEntries es = mapValues anonymous es := by
  induction es with
  | nil => rfl
  | cons e es ih => rw [anonymousEntries, ih]; rfl

theorem anonymous_table (es : List (String × Node)) :
    (table es).anonymous = .table (mapValues anonymous es) := by
  rw [anonymous, anonymousEntries_eq_mapValues]

theorem entriesOf_anonymous (old : Option Node) :
    entriesOf (old.map anonymous) = mapValues anonymous (entriesOf old) := by
  rcases old with _ | ⟨s, file⟩ | ⟨file⟩ | ⟨es⟩
  · rfl
  · rfl
  · rfl
  · rw [Option.map_some, anonymous_table]
    rfl

mutual

theorem overlay_anonymous : ∀ (n : Node) (old : Option Node),
    (overlay old n).anonymous = overlay (old.map anonymous) n.anonymous
  | .scalar s file, old => rfl
  | .sequence file, old => rfl
  | .table es, old => by
    rw [overlay, anonymous_table, anonymous_table, overlay, overlayEntries_anonymous es,
      entriesOf_anonymous]

theorem overlayEntries_anonymous : ∀ es old : List (String × Node),
    mapValues anonymous (overlayEntries old es) =
      overlayEntries (mapValues anonymous old) (mapValues anonymous es)
  | [], old => rfl
  | (key, n) :: es, old => by
    show mapValues anonymous (overlayEntries old ((key, n) :: es)) =
      overlayEntries (mapValues anonymous old) ((key, n.anonymous) :: mapValues anonymous es)
    rw [overlayEntries, overlayEntries, overlayEntries_anonymous es, Entries.mapValues_insert,
      overlay_anonymous n, Entries.get?_mapValues]

end

theorem place_anonymous (n : Node) (path : List Segment) (old : Option Node) :
    (place n path old).anonymous = place n.anonymous path (old.map anonymous) := by
  induction path generalizing old with
  | nil => exact overlay_anonymous n old
  | cons step path ih =>
    cases step with
    | key key =>
      rw [place, place, anonymous_table, Entries.mapValues_insert, ih, entriesOf_anonymous,
        Entries.get?_mapValues]
    | index =>
      rcases old with _ | ⟨s, file⟩ | ⟨file⟩ | ⟨es⟩ <;> rfl

theorem placeAt_anonymous (path : KeyPath) (n : Node) (es : List (String × Node)) :
    mapValues anonymous (placeAt path n es) =
      placeAt path n.anonymous (mapValues anonymous es) := by
  rw [placeAt, placeAt, Entries.mapValues_insert, place_anonymous, Entries.get?_mapValues]

theorem placeAll_anonymous (named es : List (String × Node)) :
    mapValues anonymous (placeAll named es) =
      placeAll (mapValues anonymous named) (mapValues anonymous es) := by
  induction named generalizing es with
  | nil => rfl
  | cons e named ih =>
    show mapValues anonymous (placeAll named (placeAt (.read e.1) e.2 es)) = _
    rw [ih, placeAt_anonymous]
    rfl

/-! ### From TOML -/

theorem collect_anonymous {ε : Type} (es : List (String × Except ε Node)) :
    collect (mapValues (fun x => x.map anonymous) es) = (collect es).map (mapValues anonymous) := by
  induction es with
  | nil => rfl
  | cons e es ih =>
    obtain ⟨key, x⟩ := e
    show collect ((key, x.map anonymous) :: mapValues _ es) = _
    rw [collect, collect, ih]
    cases x with
    | error e => rfl
    | ok n => cases collect es <;> rfl

mutual

theorem ofToml_anonymous (file : Option String) : ∀ v : Toml.Value,
    (ofToml file v).map anonymous = ofToml none v
  | .scalar s => by
    rw [ofToml, ofToml]
    cases ofTomlScalar s <;> rfl
  | .array b items => by
    rw [ofToml, ofToml, checkItems_anonymous file items]
    cases checkItems none items <;> rfl
  | .table o es => by
    rw [ofToml, ofToml, ← ofTomlEntries_anonymous file es, sortEntries_mapValues, collect_anonymous]
    cases h : collect (sortEntries (ofTomlEntries file es)) with
    | error e => rfl
    | ok es' => exact congrArg Except.ok (anonymous_table es')

/-- What is wrong with an item has no file yet. -/
theorem checkItems_anonymous (file : Option String) : ∀ items : List Toml.Value,
    checkItems file items = checkItems none items
  | [] => rfl
  | x :: xs => by
    rw [checkItems, checkItems, checkItems_anonymous file xs, ← ofToml_anonymous file x]
    cases ofToml file x <;> rfl

theorem ofTomlEntries_anonymous (file : Option String) : ∀ es : List (String × Toml.Value),
    mapValues (fun x => x.map anonymous) (ofTomlEntries file es) = ofTomlEntries none es
  | [] => rfl
  | (key, x) :: es => by
    rw [ofTomlEntries, ofTomlEntries, ← ofToml_anonymous file x, ← ofTomlEntries_anonymous file es]
    rfl

end

end Node

/-! ## Faults without the name of a file -/

/-- The fault as if it were found in no file. -/
def Fault.anonymous : Fault → Fault
  | .unreadable => .unreadable
  | .longKey _ => .longKey none
  | .misfit m _ => .misfit m none
  | .wrongKind found expected key _ => .wrongKind found.anonymous expected key none
  | .reported text => .reported text

theorem textAt_anonymous (key : String) (n : Node) :
    (textAt key n).mapError Fault.anonymous = textAt key n.anonymous := by
  rcases n with ⟨s, file⟩ | ⟨file⟩ | ⟨es⟩ <;> rfl

theorem textOr_anonymous (key default : String) (es : List (String × Node)) :
    (textOr key default es).mapError Fault.anonymous =
      textOr key default (mapValues Node.anonymous es) := by
  rw [textOr, textOr, Entries.get?_mapValues]
  cases Entries.get? key es with
  | none => rfl
  | some n => exact textAt_anonymous key n

theorem readCookies_anonymous (es : List (String × Node)) :
    (readCookies es).mapError Fault.anonymous = readCookies (mapValues Node.anonymous es) := by
  rw [readCookies, readCookies, mapError_bind, mapError_mapM, Node.sortEntries_mapValues]
  unfold mapValues
  rw [List.mapM_map]
  congr 2
  funext e
  rw [mapError_bind, textAt_anonymous]
  rfl

theorem cookiesOf_anonymous (es : List (String × Node)) :
    (cookiesOf es).mapError Fault.anonymous = cookiesOf (mapValues Node.anonymous es) := by
  rw [cookiesOf, cookiesOf, Entries.get?_mapValues]
  rcases Entries.get? "cookies" es with _ | ⟨s, file⟩ | ⟨file⟩ | ⟨cookies⟩
  · rfl
  · rfl
  · rfl
  · rw [Option.map_some, Node.anonymous_table]
    exact readCookies_anonymous cookies

theorem ofTree_anonymous (es : List (String × Node)) :
    (ofTree es).mapError Fault.anonymous = ofTree (mapValues Node.anonymous es) := by
  rw [ofTree_eq, ofTree_eq, mapError_bind, textOr_anonymous]
  congr 1
  funext baseUrl
  rw [mapError_bind, textOr_anonymous]
  congr 1
  funext userAgent
  rw [mapError_bind, cookiesOf_anonymous]
  rfl

theorem readToml_anonymous (file : Option String) (text : String) :
    ((readToml file text).map (mapValues Node.anonymous)).mapError Fault.anonymous =
      readToml none text := by
  rw [readToml, readToml]
  cases Toml.parse text with
  | error e => cases e <;> rfl
  | ok entries =>
    show ((((Node.collect _).mapError _).map _).mapError _) = (Node.collect _).mapError _
    rw [← Node.ofTomlEntries_anonymous file entries, Node.sortEntries_mapValues, Node.collect_anonymous]
    cases Node.collect (Node.sortEntries (Node.ofTomlEntries file entries)) <;> rfl

/-! ## What is no document -/

theorem textAt_ne_unreadable (key : String) (n : Node) : textAt key n ≠ .error .unreadable := by
  rcases n with ⟨s, file⟩ | ⟨file⟩ | ⟨es⟩ <;> exact nofun

theorem textOr_ne_unreadable (key default : String) (es : List (String × Node)) :
    textOr key default es ≠ .error .unreadable := by
  rw [textOr]
  cases Entries.get? key es with
  | none =>
    rintro ⟨⟩
  | some n => exact textAt_ne_unreadable key n

theorem cookiesOf_ne_unreadable (es : List (String × Node)) :
    cookiesOf es ≠ .error .unreadable := by
  rw [cookiesOf]
  rcases Entries.get? "cookies" es with _ | ⟨s, file⟩ | ⟨file⟩ | ⟨cookies⟩
  · exact nofun
  · exact nofun
  · exact nofun
  · intro h
    rcases bind_eq_error_iff.mp h with hpairs | ⟨pairs, -, ⟨⟩⟩
    obtain ⟨e, -, he⟩ := exists_of_mapM_eq_error hpairs
    rcases bind_eq_error_iff.mp he with htext | ⟨text, -, ⟨⟩⟩
    exact textAt_ne_unreadable _ _ htext

/-- Sources that were read are at fault only for a value of the wrong kind. -/
theorem ofTree_ne_unreadable (es : List (String × Node)) : ofTree es ≠ .error .unreadable := by
  rw [ofTree_eq]
  intro h
  rcases bind_eq_error_iff.mp h with hbase | ⟨baseUrl, -, h⟩
  · exact textOr_ne_unreadable _ _ _ hbase
  rcases bind_eq_error_iff.mp h with hagent | ⟨userAgent, -, h⟩
  · exact textOr_ne_unreadable _ _ _ hagent
  rcases bind_eq_error_iff.mp h with hcookies | ⟨cookies, -, ⟨⟩⟩
  exact cookiesOf_ne_unreadable _ hcookies

theorem readToml_eq_unreadable_iff {file : Option String} {text : String} :
    readToml file text = .error .unreadable ↔ Toml.parse text = .error .unreadable := by
  rw [readToml]
  cases Toml.parse text with
  | error e => cases e <;> simp [Except.mapError, Fault.ofToml, bind, Except.bind]
  | ok entries =>
    show (Node.collect _).mapError _ = _ ↔ _
    cases Node.collect (Node.sortEntries (Node.ofTomlEntries file entries)) <;> simp [Except.mapError]

/-- **Settings of a text are unreadable exactly when the text is no document.** -/
theorem ofToml_eq_unreadable_iff {text : String} :
    ofToml text = .error .unreadable ↔ Toml.parse text = .error .unreadable := by
  rw [ofToml, bind_eq_error_iff, readToml_eq_unreadable_iff]
  refine or_iff_left ?_
  rintro ⟨named, -, h⟩
  exact ofTree_ne_unreadable _ h

/-! ## Loading a file -/

/-- The default file is looked up by its name, and then by its name with an ending. -/
theorem fileAt?_defaultFile (files : Files) :
    fileAt? files defaultFile =
      ((Entries.get? "screener.toml" files).map ("screener.toml", ·) <|>
        (Entries.get? "screener.toml.toml" files).map ("screener.toml.toml", ·)) := rfl

theorem readFile_defaultFile {files : Files} {text : String}
    (hfile : Entries.get? "screener.toml" files = some text) :
    readFile files defaultFile =
      readToml (some "screener.toml") (String.ofList (Toml.dropMark text.toList)) := by
  rw [readFile, fileAt?_defaultFile, hfile]
  rfl

section Load

variable {files : Files} {env : Environment} {text : String}

/-- **Loading a file gives what its text gives**, but for the name of the file in a fault. -/
theorem load_anonymous (hfile : Entries.get? "screener.toml" files = some text)
    (hmark : text.toList.head? ≠ some '\uFEFF') (henv : ∀ v ∈ env, ¬IsMarked v.1) :
    (load files none env).mapError Fault.anonymous = ofToml text := by
  have hnamed : readFile files defaultFile = readToml (some "screener.toml") text := by
    rw [readFile_defaultFile hfile, Toml.dropMark_of_head?_ne hmark, String.ofList_toList]
  rw [load, ofToml, readEnvironment_of_unmarked henv, Option.getD_none, hnamed,
    ← readToml_anonymous (some "screener.toml") text, mapError_bind]
  cases readToml (some "screener.toml") text with
  | error e => rfl
  | ok named =>
    show (ofTree (Node.placeAll named [])).mapError Fault.anonymous = _
    rw [ofTree_anonymous, Node.placeAll_anonymous]
    rfl

theorem anonymous_eq_unreadable_iff {fault : Fault} :
    fault.anonymous = .unreadable ↔ fault = .unreadable := by
  cases fault <;> simp [Fault.anonymous]

end Load

end MarketScan.Settings
