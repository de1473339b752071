import MarketScan.Proofs.Settings.Variable
import MarketScan.Proofs.Toml.Distinct
import MarketScan.Proofs.Toml.Texts

/-!
# A file, and the environment over it

A file chooses some of the settings. What the environment sets counts before what the file chooses, and
that counts before the defaults; cookies are laid over each other one by one.

* `Settings.Choices` — what a file may choose
* `Choices.IsWrittenIn`, `Chooses` — the documents and the files that choose it
* `Chooses.tree` — the tree of a file
* `Settings.load_layers` — what is loaded
-/

namespace MarketScan.Settings

open Entries (mapValues)

/-! ## Nodes of a table -/

namespace Node

theorem ofTomlEntries_eq_mapValues (file : Option String) (es : List (String × Toml.Value)) :
    ofTomlEntries file es = mapValues (ofToml file) es := by
  induction es with
  | nil => rfl
  | cons e es ih =>
    rw [ofTomlEntries, ih]
    rfl

theorem collect_mapValues {ε α β : Type} {f : α → Except ε β} {es : List (String × α)}
    (h : ∀ e ∈ es, ∃ b, f e.2 = .ok b) :
    ∃ named, collect (mapValues f es) = .ok named ∧ Entries.keys named = Entries.keys es ∧
      ∀ key, Option.Rel (fun a b => f a = .ok b) (Entries.get? key es) (Entries.get? key named) := by
  induction es with
  | nil => exact ⟨[], rfl, rfl, fun _ => .none⟩
  | cons e es ih =>
    obtain ⟨⟨b, hb⟩, hes⟩ := List.forall_mem_cons.mp h
    obtain ⟨named, hcollect, hkeys, hget⟩ := ih hes
    refine ⟨(e.1, b) :: named, ?_, ?_, fun key => ?_⟩
    · show collect ((e.1, f e.2) :: mapValues f es) = _
      rw [collect, hb, hcollect]
      rfl
    · rw [Entries.keys_cons, Entries.keys_cons, hkeys]
    · rw [Entries.get?, Entries.get?]
      split
      · exact .some hb
      · exact hget key

/-- **The nodes of a table** are found by the keys of its values. -/
theorem collect_ofTomlEntries {file : Option String} {es : List (String × Toml.Value)}
    (hd : (Entries.keys es).Nodup) (h : ∀ e ∈ es, ∃ n, ofToml file e.2 = .ok n) :
    ∃ named, collect (sortEntries (ofTomlEntries file es)) = .ok named ∧
      (Entries.keys named).Perm (Entries.keys es) ∧
      ∀ key, Option.Rel (fun v n => ofToml file v = .ok n)
        (Entries.get? key es) (Entries.get? key named) := by
  have hsorted := sortEntries_perm es
  have hall : ∀ e ∈ sortEntries es, ∃ n, ofToml file e.2 = .ok n := fun e he =>
    h e (hsorted.mem_iff.mp he)
  obtain ⟨named, hcollect, hkeys, hget⟩ := collect_mapValues hall
  refine ⟨named, ?_, ?_, fun key => ?_⟩
  · rw [ofTomlEntries_eq_mapValues, sortEntries_mapValues, hcollect]
  · rw [hkeys]
    exact hsorted.map Prod.fst
  · rw [← get?_sortEntries hd]
    exact hget key

/-! ## Entries laid over nothing -/

theorem overlayEntries_concat (old es : List (String × Node)) (e : String × Node) :
    overlayEntries old (es ++ [e]) =
      Entries.insert e.1 (overlay (Entries.get? e.1 (overlayEntries old es)) e.2)
        (overlayEntries old es) := by
  induction es generalizing old with
  | nil => rfl
  | cons e' es ih =>
    rw [List.cons_append, overlayEntries, ih, overlayEntries]

theorem overlayEntries_nil {es : List (String × Node)} (hd : (Entries.keys es).Nodup) :
    overlayEntries [] es = mapValues (overlay none) es := by
  induction es using List.reverseRecOn with
  | nil => rfl
  | append_singleton es e ih =>
    rw [Entries.keys, List.map_append, List.nodup_append] at hd
    obtain ⟨hes, -, hdisjoint⟩ := hd
    have hnew : e.1 ∉ Entries.keys es := fun he => hdisjoint _ he _ List.mem_cons_self rfl
    have hnew' : e.1 ∉ Entries.keys (mapValues (overlay none) es) := by rwa [Entries.keys_mapValues]
    rw [overlayEntries_concat, ih hes, Entries.get?_eq_none_iff.mpr hnew',
      Entries.insert_of_not_mem hnew', mapValues, mapValues, List.map_append]
    rfl

/-- Names that are no paths place their nodes at the top. -/
theorem placeAll_of_plain {named : List (String × Node)}
    (h : ∀ e ∈ named, KeyPath.read e.1 = ⟨e.1, []⟩) (es : List (String × Node)) :
    placeAll named es = overlayEntries es named := by
  induction named generalizing es with
  | nil => rfl
  | cons e named ih =>
    obtain ⟨he, hnamed⟩ := List.forall_mem_cons.mp h
    show placeAll named (placeAt (.read e.1) e.2 es) = _
    rw [he, ih hnamed, overlayEntries]
    rfl

end Node

/-! ## What a file chooses -/

/-- What a file may choose. -/
structure Choices where
  baseUrl : Option String
  userAgent : Option String
  cookies : List (String × String)

namespace Choices

def nothing : Choices := ⟨none, none, []⟩

/-- The choice for a setting outside the table of the cookies. -/
def top? (c : Choices) (key : String) : Option String :=
  if key = "base_url" then c.baseUrl else c.userAgent

/-- The keys of settings. -/
def keys : List String := "cookies" :: topKeys

/-- The entries of a document choose these texts and say nothing else. The table of the cookies may
come about in any way, or be left out when there are none. -/
structure IsWrittenIn (c : Choices) (es : List (String × Toml.Value)) : Prop where
  keys : ∀ e ∈ es, e.1 ∈ Choices.keys
  baseUrl : Entries.get? "base_url" es = c.baseUrl.map Toml.Value.ofText
  userAgent : Entries.get? "user_agent" es = c.userAgent.map Toml.Value.ofText
  cookies : Entries.get? "cookies" es = none ∧ c.cookies = [] ∨
    ∃ origin, Entries.get? "cookies" es = some (.table origin (mapValues Toml.Value.ofText c.cookies))

end Choices

/-- What the file of a path chooses, which is nothing if there is no file. -/
inductive Chooses (files : Files) (path : String) : Choices → Prop where
  | noFile (h : fileAt? files path = none) : Chooses files path .nothing
  | file {name text : String} {es : List (String × Toml.Value)} {c : Choices}
      (hfile : fileAt? files path = some (name, text))
      (hparse : Toml.parse (String.ofList (Toml.dropMark text.toList)) = .ok es)
      (hes : c.IsWrittenIn es) : Chooses files path c

theorem ofToml_ofText (file : Option String) (text : String) :
    Node.ofToml file (Toml.Value.ofText text) = .ok (textNode file text) := rfl

/-! ## Writing what a file chooses -/

namespace Choices

/-- The texts of a document that chooses these settings. -/
def texts (c : Choices) : Toml.Texts where
  top := (c.baseUrl.map ("base_url", ·)).toList ++ (c.userAgent.map ("user_agent", ·)).toList
  tables := if c.cookies.isEmpty then [] else [("cookies", c.cookies)]

theorem isWrittenIn_entries (c : Choices) : c.IsWrittenIn c.texts.entries := by
  obtain ⟨baseUrl, userAgent, cookies⟩ := c
  constructor
  · cases baseUrl <;> cases userAgent <;> cases cookies <;>
      simp [texts, Toml.Texts.entries, mapValues, Choices.keys, topKeys]
  · cases baseUrl <;> cases userAgent <;> cases cookies <;> rfl
  · cases baseUrl <;> cases userAgent <;> cases cookies <;> rfl
  · cases cookies with
    | nil =>
      refine .inl ⟨?_, rfl⟩
      cases baseUrl <;> cases userAgent <;> rfl
    | cons e cookies =>
      refine .inr ⟨.header, ?_⟩
      cases baseUrl <;> cases userAgent <;> rfl

theorem distinct_texts {c : Choices} (h : (Entries.keys c.cookies).Nodup) : c.texts.Distinct := by
  obtain ⟨baseUrl, userAgent, cookies⟩ := c
  constructor
  · cases baseUrl <;> cases userAgent <;> cases cookies <;> simp [texts, Entries.keys]
  · cases cookies with
    | nil =>
      intro t ht
      cases ht
    | cons e cookies =>
      intro t ht
      rw [List.mem_singleton.mp ht]
      exact h

end Choices

/-- **Whatever texts are chosen, there is a file that chooses them.** -/
theorem chooses_write {files : Files} {path name : String} {c : Choices}
    (h : (Entries.keys c.cookies).Nodup)
    (hfile : fileAt? files path = some (name, c.texts.write)) : Chooses files path c := by
  refine .file hfile ?_ c.isWrittenIn_entries
  rw [Toml.Texts.dropMark_write, String.ofList_toList]
  exact Toml.Texts.parse_write (Choices.distinct_texts h)

/-! ## The tree of a file -/

namespace Choices.IsWrittenIn

variable {c : Choices} {es : List (String × Toml.Value)} (h : c.IsWrittenIn es)
include h

theorem get?_top : ∀ key ∈ topKeys, Entries.get? key es = (c.top? key).map Toml.Value.ofText := by
  intro key hkey
  rcases List.mem_pair.mp hkey with rfl | rfl
  · exact h.baseUrl
  · exact h.userAgent

theorem nodup_cookies (hd : Toml.Distinct (.table .header es)) : (Entries.keys c.cookies).Nodup := by
  rcases h.cookies with ⟨-, hnone⟩ | ⟨origin, hget⟩
  · rw [hnone]
    exact .nil
  · have hcookies := Toml.Table.distinct_get? (t := ⟨.header, es⟩) hd hget
    cases hcookies with
    | table hkeys _ => rwa [Entries.keys_mapValues] at hkeys

end Choices.IsWrittenIn

/-- Texts are texts in the tree as well. -/
theorem rel_overlay_of_text {file : Option String} {text? : Option String} {node : Option Node}
    (h : Option.Rel (fun v n => Node.ofToml file v = .ok n) (text?.map Toml.Value.ofText) node) :
    Option.Rel IsText (node.map (Node.overlay none)) text? := by
  cases text? with
  | none =>
    cases h
    exact .none
  | some text =>
    cases h with
    | some hnode =>
      rw [ofToml_ofText] at hnode
      cases hnode
      exact .some ⟨file, rfl⟩

/-- The node of a table of texts. -/
theorem ofToml_cookies (file : Option String) {cookies : List (String × String)}
    (hd : (Entries.keys cookies).Nodup) (origin : Toml.Origin) :
    ∃ named, Node.ofToml file (.table origin (mapValues Toml.Value.ofText cookies)) =
        .ok (.table named) ∧
      CookiesSay (some (Node.overlay none (.table named))) fun name => Entries.get? name cookies := by
  have hkeys : Entries.keys (mapValues Toml.Value.ofText cookies) = Entries.keys cookies :=
    Entries.keys_mapValues _ _
  have hall : ∀ e ∈ mapValues Toml.Value.ofText cookies, ∃ n, Node.ofToml file e.2 = .ok n := by
    intro e he
    obtain ⟨e, -, rfl⟩ := List.mem_map.mp he
    exact ⟨_, ofToml_ofText file e.2⟩
  obtain ⟨named, hcollect, hperm, hget⟩ := Node.collect_ofTomlEntries (hkeys ▸ hd) hall
  have hnamed : (Entries.keys named).Nodup := hperm.nodup_iff.mpr (hkeys ▸ hd)
  refine ⟨named, ?_, ?_⟩
  · rw [Node.ofToml, hcollect]
    rfl
  · have hnothing : Node.entriesOf none = [] := rfl
    rw [Node.overlay, hnothing, Node.overlayEntries_nil hnamed]
    refine .table (by rwa [Entries.keys_mapValues]) fun name => ?_
    have hrel := hget name
    rw [Entries.get?_mapValues] at hrel
    rw [Entries.get?_mapValues]
    exact rel_overlay_of_text hrel

namespace Choices.IsWrittenIn

variable {c : Choices} {es : List (String × Toml.Value)} (h : c.IsWrittenIn es)
  (hd : Toml.Distinct (.table .header es))
include h hd

theorem exists_ofToml (file : Option String) : ∀ e ∈ es, ∃ n, Node.ofToml file e.2 = .ok n := by
  intro e he
  have hget : Entries.get? e.1 es = some e.2 := by
    cases hd with
    | table hkeys _ => exact Entries.get?_of_mem hkeys he
  rcases List.mem_cons.mp (h.keys e he) with hkey | hkey
  · rw [hkey] at hget
    rcases h.cookies with ⟨hnone, -⟩ | ⟨origin, hcookies⟩
    · rw [hnone] at hget
      cases hget
    · rw [hcookies] at hget
      obtain ⟨named, hnode, -⟩ := ofToml_cookies file (h.nodup_cookies hd) origin
      exact ⟨_, Option.some.inj hget ▸ hnode⟩
  · rw [h.get?_top e.1 hkey] at hget
    obtain ⟨text, -, hvalue⟩ := Option.map_eq_some_iff.mp hget
    exact ⟨_, hvalue ▸ ofToml_ofText file text⟩

/-- **The tree of a document says what the document chooses.** -/
theorem tree (file : Option String) :
    ∃ named, Node.collect (Node.sortEntries (Node.ofTomlEntries file es)) = .ok named ∧
      Says (Node.placeAll named []) c.top? fun name => Entries.get? name c.cookies := by
  have hkeys : (Entries.keys es).Nodup := by
    cases hd with
    | table hkeys _ => exact hkeys
  obtain ⟨named, hcollect, hperm, hget⟩ := Node.collect_ofTomlEntries hkeys (h.exists_ofToml hd file)
  have hplain : ∀ e ∈ named, KeyPath.read e.1 = ⟨e.1, []⟩ := by
    intro e he
    obtain ⟨e', he', hsame⟩ := List.mem_map.mp (hperm.mem_iff.mp (List.mem_map_of_mem he))
    have hread : ∀ key ∈ Choices.keys, KeyPath.read key = ⟨key, []⟩ := by decide
    exact hread e.1 (hsame ▸ h.keys e' he')
  refine ⟨named, hcollect, ?_⟩
  rw [Node.placeAll_of_plain hplain, Node.overlayEntries_nil (hperm.nodup_iff.mpr hkeys)]
  constructor
  · intro key hkey
    have hrel := hget key
    rw [h.get?_top key hkey] at hrel
    rw [Entries.get?_mapValues]
    exact rel_overlay_of_text hrel
  · have hrel := hget "cookies"
    rw [Entries.get?_mapValues]
    generalize Entries.get? "cookies" named = node at hrel
    rcases h.cookies with ⟨hnone, hempty⟩ | ⟨origin, hcookies⟩
    · rw [hnone] at hrel
      cases hrel
      rw [hempty]
      exact .nothing
    · rw [hcookies] at hrel
      obtain ⟨table, htable, hsay⟩ := ofToml_cookies file (h.nodup_cookies hd) origin
      cases hrel with
      | some hnode =>
        rw [htable] at hnode
        cases hnode
        exact hsay

end Choices.IsWrittenIn

/-- **The tree of a file says what the file chooses.** -/
theorem Chooses.tree {files : Files} {path : String} {c : Choices} (h : Chooses files path c) :
    ∃ named, readFile files path = .ok named ∧
      Says (Node.placeAll named []) c.top? fun name => Entries.get? name c.cookies := by
  cases h with
  | noFile h =>
    refine ⟨[], ?_, ?_⟩
    · rw [readFile, h]
    · refine Says.nothing.congr (fun key _ => ?_) fun _ => rfl
      rw [Choices.top?]
      split <;> rfl
  | @file name text es c hfile hparse hes =>
    obtain ⟨named, hcollect, htree⟩ := hes.tree (Toml.distinct_parse hparse) (some name)
    refine ⟨named, ?_, htree⟩
    rw [readFile, hfile]
    dsimp only
    rw [readToml, hparse]
    show (Node.collect _).mapError _ = _
    rw [hcollect]
    rfl

/-! ## Loading -/

/-- The names of the texts of an environment are places. -/
theorem isPlace_of_mem {env : Environment} (henv : ∀ v ∈ env, IsSetting v.1 ∨ ¬IsMarked v.1) :
    ∀ e ∈ Node.sortEntries (Entries.ofList (env.filterMap said?)), IsPlace e.1 := by
  intro e he
  have hmem := Entries.mem_of_mem_ofList ((Node.sortEntries_perm _).mem_iff.mp he)
  obtain ⟨v, hv, hsaid⟩ := List.mem_filterMap.mp hmem
  cases meaning (henv v hv) with
  | top top htop _ hmeans =>
    rw [hmeans] at hsaid
    rw [← Option.some.inj hsaid]
    exact .top (mem_topKeys (e := top) htop)
  | cookie name hread _ hmeans =>
    rw [hmeans] at hsaid
    cases hsaid
    exact .cookie name hread
  | nothing _ hmeans =>
    rw [hmeans] at hsaid
    cases hsaid

section Load

variable {files : Files} {path : Option String} {c : Choices} {env : Environment}

/-- **Settings are layered**: each of them is what the environment sets, else what the file chooses, else
the default, and so is each cookie, of which there are no defaults. Variables of other names do not
count. -/
theorem load_layers (hfile : Chooses files (path.getD defaultFile) c)
    (henv : ∀ v ∈ env, IsSetting v.1 ∨ ¬IsMarked v.1) :
    ∃ s, load files path env = .ok s ∧
      s.baseUrl = (env.value? "SCREENER_BASE_URL").getD
        (c.baseUrl.getD "https://scanner.tradingview.com") ∧
      s.userAgent = (env.value? "SCREENER_USER_AGENT").getD (c.userAgent.getD "screener/0.1.0") ∧
      (∀ name, Entries.get? name s.cookies.entries =
        (env.cookie? name).or (Entries.get? name c.cookies)) ∧
      load files path (env.filter fun v => IsMarked v.1) = .ok s := by
  obtain ⟨named, hread, htree⟩ := hfile.tree
  have hnodup := Entries.nodup_ofList (env.filterMap said?)
  have hlast (key : String) :
      Entries.lastValue key (Node.sortEntries (Entries.ofList (env.filterMap said?))) =
        Entries.lastValue key (env.filterMap said?) := by
    rw [Entries.lastValue_of_nodup (Node.nodup_keys_sortEntries hnodup), Node.get?_sortEntries hnodup,
      Entries.get?_ofList]
  have hlaid := htree.placeAll none (isPlace_of_mem henv)
  rw [← readEnvironment_eq] at hlaid
  simp only [hlast, lastValue_cookie henv] at hlaid
  obtain ⟨s, hs, hbase, hagent, hcookies⟩ := hlaid.ofTree
  have hload (env' : Environment) (h : readEnvironment env' = readEnvironment env) :
      load files path env' = .ok s := by
    rw [load, hread, h]
    exact hs
  refine ⟨s, hload env rfl, ?_, ?_, hcookies, hload _ (readEnvironment_filter env)⟩
  · rw [hbase, lastValue_top henv (e := ("base_url", _)) List.mem_cons_self, Option.getD_or]
    rfl
  · rw [hagent, lastValue_top henv (e := ("user_agent", "SCREENER_USER_AGENT")) (by decide),
      Option.getD_or]
    rfl

end Load

/-- A base and two cookies in a file, below an empty name of the sender and two cookies in the
environment, one of them with the name of a cookie in the file. -/
theorem load_layers_mixed :
    ∃ s, load
        [("screener.toml", "base_url = \"https://a.b/\\\"\"\n[cookies]\ncsrf_token = \"1\"\nid = \"2\"\n")]
        none
        [("PATH", "/bin"), ("SCREENER_USER_AGENT", ""), ("SCREENER_COOKIES__CSRF_TOKEN", "3"),
          ("SCREENER_COOKIES__V2", "4")] = .ok s ∧
      s.baseUrl = "https://a.b/\"" ∧ s.userAgent = "" ∧
      Entries.get? "csrf_token" s.cookies.entries = some "3" ∧
      Entries.get? "id" s.cookies.entries = some "2" ∧
      Entries.get? "v2" s.cookies.entries = some "4" := by
  have henv : ∀ v ∈ [("PATH", "/bin"), ("SCREENER_USER_AGENT", ""),
      ("SCREENER_COOKIES__CSRF_TOKEN", "3"), ("SCREENER_COOKIES__V2", "4")],
      IsSetting v.1 ∨ ¬IsMarked v.1 := by
    intro v hv
    rw [List.mem_cons, List.mem_cons, List.mem_cons, List.mem_singleton] at hv
    rcases hv with rfl | rfl | rfl | rfl
    · exact .inr (by decide)
    · exact .inl (.userAgent rfl)
    · exact .inl (.cookie "CSRF_TOKEN".toList ⟨by decide, List.all_iff_forall_prop.mp (by decide), by decide⟩ rfl)
    · exact .inl (.cookie "V2".toList ⟨by decide, List.all_iff_forall_prop.mp (by decide), by decide⟩ rfl)
  have hfile : Chooses
      [("screener.toml", "base_url = \"https://a.b/\\\"\"\n[cookies]\ncsrf_token = \"1\"\nid = \"2\"\n")]
      ((none : Option String).getD defaultFile)
      ⟨some "https://a.b/\"", none, [("csrf_token", "1"), ("id", "2")]⟩ :=
    chooses_write (by decide) rfl
  obtain ⟨s, hs, hbase, hagent, hcookie, -⟩ := load_layers hfile henv
  exact ⟨s, hs, hbase, hagent, hcookie "csrf_token", hcookie "id", hcookie "v2"⟩

end MarketScan.Settings
