import MarketScan.Proofs.Entries
import MarketScan.Proofs.Except
import MarketScan.Proofs.Settings.Cookies
import MarketScan.Settings.Load

/-!
# What merged sources say

Sources that give texts, each of them to the base, to the name of the sender or to a cookie, say for each
of these at most one text. A text that is placed takes the place of what was said before, and leaves
everything else as it was, the other cookies included. What a tree says is what the settings made of it
hold.

* `Settings.ofTree_eq` — the settings of merged sources, one after the other
* `Settings.Says` — what a tree says
* `Says.placeAt_top`, `Says.placeAt_cookie` — one text more
* `Says.placeAll` — any number of texts
* `Says.ofTree` — the settings of a tree
-/

namespace MarketScan.Settings

/-- The cookies that merged sources give. -/
def cookiesOf (es : List (String × Node)) : Except Fault Cookies :=
  match Entries.get? "cookies" es with
  | none => .ok .none
  | some (.table cookies) => readCookies cookies
  | some n => .error (.wrongKind n "a map" "cookies" none)

theorem ofTree_eq (es : List (String × Node)) :
    ofTree es =
      (do
        let baseUrl ← textOr "base_url" default.baseUrl es
        let userAgent ← textOr "user_agent" default.userAgent es
        let cookies ← cookiesOf es
        .ok ⟨baseUrl, userAgent, cookies⟩) := by
  unfold ofTree cookiesOf
  congr 1
  funext baseUrl
  congr 1
  funext userAgent
  rcases Entries.get? "cookies" es with _ | ⟨s, file⟩ | ⟨file⟩ | ⟨cookies⟩ <;> rfl

/-! ## Entries in order -/

namespace Node

variable {α β : Type}

theorem sortEntries_perm (es : List (String × α)) : (sortEntries es).Perm es := List.mergeSort_perm es _

theorem sortEntries_mapValues (f : α → β) (es : List (String × α)) :
    sortEntries (Entries.mapValues f es) = Entries.mapValues f (sortEntries es) := by
  unfold sortEntries Entries.mapValues
  rw [List.map_mergeSort]
  exact fun _ _ _ _ => rfl

theorem nodup_keys_sortEntries {es : List (String × α)} (h : (Entries.keys es).Nodup) :
    (Entries.keys (sortEntries es)).Nodup :=
  ((sortEntries_perm es).map Prod.fst).nodup_iff.mpr h

theorem get?_sortEntries {es : List (String × α)} (h : (Entries.keys es).Nodup) (key : String) :
    Entries.get? key (sortEntries es) = Entries.get? key es :=
  Entries.get?_perm (sortEntries_perm es).symm h key

end Node

/-! ## What a tree says -/

/-- The settings outside the table of the cookies. -/
def topKeys : List String := ["base_url", "user_agent"]

/-- The node of a text. -/
def textNode (file : Option String) (text : String) : Node := .scalar (.text text) file

/-- A node that is a text, of whatever file. -/
def IsText (n : Node) (text : String) : Prop := ∃ file, n = textNode file text

/-- What is said of the cookies. -/
inductive CookiesSay : Option Node → (String → Option String) → Prop where
  | nothing : CookiesSay none fun _ => none
  | table {es : List (String × Node)} {cookie? : String → Option String}
      (hkeys : (Entries.keys es).Nodup)
      (h : ∀ name, Option.Rel IsText (Entries.get? name es) (cookie? name)) :
      CookiesSay (some (.table es)) cookie?

/-- What a tree says of the settings and of each cookie. -/
structure Says (es : List (String × Node)) (top? cookie? : String → Option String) : Prop where
  top : ∀ key ∈ topKeys, Option.Rel IsText (Entries.get? key es) (top? key)
  cookies : CookiesSay (Entries.get? "cookies" es) cookie?

/-- What is said of a name once a text is given to it. -/
def given (name text : String) (said? : String → Option String) (key : String) : Option String :=
  if key = name then some text else said? key

namespace Says

variable {es : List (String × Node)} {top? cookie? : String → Option String} {n : Node} {text : String}

theorem nothing : Says [] (fun _ => none) fun _ => none where
  top _ _ := .none
  cookies := .nothing

theorem placeAt_top (h : Says es top? cookie?) (hn : IsText n text) {key : String} (hkey : key ∈ topKeys) :
    Says (Node.placeAt ⟨key, []⟩ n es) (given key text top?) cookie? := by
  have hplaced : Node.placeAt ⟨key, []⟩ n es = Entries.insert key n es := by
    obtain ⟨file, rfl⟩ := hn
    rfl
  have hcookies : "cookies" ≠ key := by
    rintro rfl
    revert hkey
    decide
  rw [hplaced]
  refine ⟨fun k hk => ?_, ?_⟩
  · rw [Entries.get?_insert, given]
    split
    · exact .some hn
    · exact h.top k hk
  · rw [Entries.get?_insert, if_neg hcookies]
    exact h.cookies

theorem placeAt_cookie (h : Says es top? cookie?) (hn : IsText n text) (name : String) :
    Says (Node.placeAt ⟨"cookies", [.key name]⟩ n es) top? (given name text cookie?) := by
  have hplaced : Node.placeAt ⟨"cookies", [.key name]⟩ n es =
      Entries.insert "cookies"
        (.table (Entries.insert name n (Node.entriesOf (Entries.get? "cookies" es)))) es := by
    obtain ⟨file, rfl⟩ := hn
    rfl
  rw [hplaced]
  refine ⟨fun k hk => ?_, ?_⟩
  · have hcookies : k ≠ "cookies" := by
      rintro rfl
      revert hk
      decide
    rw [Entries.get?_insert, if_neg hcookies]
    exact h.top k hk
  · rw [Entries.get?_insert, if_pos rfl]
    have hcookies := h.cookies
    generalize Entries.get? "cookies" es = old at hcookies
    cases hcookies with
    | nothing =>
      refine .table (Entries.nodup_insert _ _ .nil) fun k => ?_
      rw [Entries.get?_insert, given]
      split
      · exact .some hn
      · exact .none
    | table hkeys hold =>
      refine .table (Entries.nodup_insert _ _ hkeys) fun k => ?_
      rw [Node.entriesOf, Entries.get?_insert, given]
      split
      · exact .some hn
      · exact hold k

theorem congr {top?' cookie?' : String → Option String} (h : Says es top? cookie?)
    (htop : ∀ key ∈ topKeys, top? key = top?' key) (hcookie : ∀ name, cookie? name = cookie?' name) :
    Says es top?' cookie?' := by
  obtain rfl : cookie? = cookie?' := funext hcookie
  exact ⟨fun key hkey => htop key hkey ▸ h.top key hkey, h.cookies⟩

end Says

/-! ### Any number of texts -/

/-- Texts are different where their first characters are. -/
theorem append_ne {s t : String} (h : s.toList.isPrefixOf t.toList = false) (r : String) : s ++ r ≠ t := by
  rintro rfl
  rw [String.toList_append, Bool.eq_false_iff, Ne, List.isPrefixOf_iff_prefix] at h
  exact h (List.prefix_append _ _)

theorem cookies_append_ne {key : String} (h : key ∈ topKeys) (name : String) :
    "cookies." ++ name ≠ key := by
  refine append_ne ?_ name
  revert key
  decide

/-- The name of a setting that a text can be given to. -/
inductive IsPlace : String → Prop where
  | top {key : String} (hkey : key ∈ topKeys) : IsPlace key
  | cookie (name : String)
      (hread : KeyPath.read ("cookies." ++ name) = ⟨"cookies", [.key name]⟩) :
      IsPlace ("cookies." ++ name)

theorem read_topKeys : ∀ key ∈ topKeys, KeyPath.read key = ⟨key, []⟩ := by decide

theorem placeAll_concat (named : List (String × Node)) (e : String × Node) (es : List (String × Node)) :
    Node.placeAll (named ++ [e]) es = Node.placeAt (.read e.1) e.2 (Node.placeAll named es) := by
  rw [Node.placeAll, List.foldl_append]
  rfl

/-- One text more is given to its name. -/
theorem lastValue_concat_or (said? : String → Option String) (texts : List (String × String))
    (e : String × String) (key : String) :
    (Entries.lastValue key (texts ++ [e])).or (said? key) =
      given e.1 e.2 (fun key => (Entries.lastValue key texts).or (said? key)) key := by
  rw [Entries.lastValue_concat, given]
  by_cases h : key = e.1
  · rw [if_pos h.symm, if_pos h, Option.some_or]
  · rw [if_neg (Ne.symm h), if_neg h]

/-- What a name says does not change with a text for another name. -/
theorem lastValue_concat_of_ne {texts : List (String × String)} {key name : String} (text : String)
    (h : name ≠ key) : Entries.lastValue key (texts ++ [(name, text)]) = Entries.lastValue key texts := by
  rw [Entries.lastValue_concat, if_neg h]

/-- **A text that is placed counts before what was said**, and the last one of a name counts. -/
theorem Says.placeAll {es : List (String × Node)} {top? cookie? : String → Option String}
    (h : Says es top? cookie?) (file : Option String) {texts : List (String × String)}
    (hplaces : ∀ e ∈ texts, IsPlace e.1) :
    Says (Node.placeAll (Entries.mapValues (textNode file) texts) es)
      (fun key => (Entries.lastValue key texts).or (top? key))
      (fun name => (Entries.lastValue ("cookies." ++ name) texts).or (cookie? name)) := by
  induction texts using List.reverseRecOn with
  | nil => exact h
  | append_singleton texts e ih =>
    obtain ⟨key, text⟩ := e
    have hold := ih fun e he => hplaces e (List.mem_append_left _ he)
    have hplace : IsPlace key := hplaces (key, text) (List.mem_append_right _ List.mem_cons_self)
    have hconcat : Entries.mapValues (textNode file) (texts ++ [(key, text)]) =
        Entries.mapValues (textNode file) texts ++ [(key, textNode file text)] := List.map_append
    rw [hconcat, placeAll_concat]
    cases hplace with
    | top hkey =>
      rw [read_topKeys key hkey]
      refine (hold.placeAt_top ⟨file, rfl⟩ hkey).congr (fun k _ => ?_) fun name => ?_
      · rw [lastValue_concat_or]
      · rw [lastValue_concat_of_ne text (cookies_append_ne hkey name).symm]
    | cookie name hread =>
      rw [hread]
      refine (hold.placeAt_cookie ⟨file, rfl⟩ name).congr (fun k hk => ?_) fun other => ?_
      · rw [lastValue_concat_of_ne text (cookies_append_ne hk name)]
      · have hsame : "cookies." ++ other = "cookies." ++ name ↔ other = name := String.append_right_inj _
        rw [lastValue_concat_or fun _ => cookie? other, given, given]
        simp only [hsame]

/-! ## The settings of a tree -/

theorem textOr_of_rel {key default : String} {es : List (String × Node)} {text? : Option String}
    (h : Option.Rel IsText (Entries.get? key es) text?) :
    textOr key default es = .ok (text?.getD default) := by
  rw [textOr]
  generalize Entries.get? key es = node at h
  cases h with
  | none => rfl
  | some h =>
    obtain ⟨file, rfl⟩ := h
    rfl

/-- The text of a node that is one. -/
def textOf : Node → String
  | .scalar s _ => s.toText
  | _ => ""

theorem IsText.textOf_eq {n : Node} {text : String} (h : IsText n text) : textOf n = text := by
  obtain ⟨file, rfl⟩ := h
  rfl

theorem readCookies_of_texts {es : List (String × Node)} (h : ∀ e ∈ es, ∃ text, IsText e.2 text) :
    readCookies es = .ok (.ofList (Entries.mapValues textOf (Node.sortEntries es))) := by
  have hmap : (Node.sortEntries es).mapM
      (fun e => do .ok (e.1, ← textAt (cookieKey e.1) e.2) : String × Node → Except Fault _) =
      .ok (Entries.mapValues textOf (Node.sortEntries es)) := by
    rw [mapM_eq_ok_iff, Entries.mapValues, List.forall₂_map_right_iff, List.forall₂_same]
    intro e he
    obtain ⟨text, file, hnode⟩ := h e ((Node.sortEntries_perm es).mem_iff.mp he)
    rw [hnode]
    rfl
  unfold readCookies
  exact congrArg (· >>= fun pairs => Except.ok (Cookies.ofList pairs)) hmap

theorem CookiesSay.cookiesOf {es : List (String × Node)} {cookie? : String → Option String}
    (h : CookiesSay (Entries.get? "cookies" es) cookie?) :
    ∃ c, cookiesOf es = .ok c ∧ ∀ name, Entries.get? name c.entries = cookie? name := by
  unfold Settings.cookiesOf
  generalize Entries.get? "cookies" es = node at h
  cases h with
  | nothing => exact ⟨.none, rfl, fun _ => rfl⟩
  | @table cookies _ hkeys h =>
    have htexts : ∀ e ∈ cookies, ∃ text, IsText e.2 text := by
      intro e he
      have hrel := h e.1
      rw [Entries.get?_of_mem hkeys he] at hrel
      generalize cookie? e.1 = text? at hrel
      cases hrel with
      | some htext => exact ⟨_, htext⟩
    refine ⟨_, readCookies_of_texts htexts, fun name => ?_⟩
    have hsorted := Node.nodup_keys_sortEntries hkeys
    rw [Cookies.get?_ofList, Entries.lastValue_of_nodup (by rwa [Entries.keys_mapValues]),
      Entries.get?_mapValues, Node.get?_sortEntries hkeys]
    have hrel := h name
    generalize Entries.get? name cookies = node, cookie? name = text? at hrel
    cases hrel with
    | none => rfl
    | some htext => exact congrArg some htext.textOf_eq

/-- **The settings of a tree are what it says**, and the defaults where it says nothing. -/
theorem Says.ofTree {es : List (String × Node)} {top? cookie? : String → Option String}
    (h : Says es top? cookie?) :
    ∃ s, Settings.ofTree es = .ok s ∧
      s.baseUrl = (top? "base_url").getD default.baseUrl ∧
      s.userAgent = (top? "user_agent").getD default.userAgent ∧
      ∀ name, Entries.get? name s.cookies.entries = cookie? name := by
  obtain ⟨c, hc, hcookie⟩ := h.cookies.cookiesOf
  refine ⟨⟨_, _, c⟩, ?_, rfl, rfl, hcookie⟩
  rw [ofTree_eq, textOr_of_rel (h.top "base_url" (by decide)),
    textOr_of_rel (h.top "user_agent" (by decide)), hc]
  rfl

end MarketScan.Settings
