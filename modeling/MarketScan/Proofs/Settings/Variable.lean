import MarketScan.Proofs.Settings.Environment
import Mathlib.Data.List.Chain
import Mathlib.Data.List.TakeWhile

/-!
# What the variables name

The names of variables are compared without regard to case. Three kinds of names mean something:
`SCREENER_BASE_URL`, `SCREENER_USER_AGENT`, and `SCREENER_COOKIES__` with the name of a cookie behind it.
As each word of a path goes up to two underscores, the name of a cookie must not have two of them side by
side.

* `Settings.IsSetting` — the names that mean something
* `Settings.settingName?_cookie` — the path that the name of a cookie stands behind
* `Environment.value?`, `Environment.cookie?` — the values that an environment sets
-/

namespace MarketScan.Settings

/-! ## Names in capitals and in small letters -/

def inCapitals (name : String) : String := String.ofList (name.toList.map Char.toUpper)

def inSmall (name : String) : String := String.ofList (name.toList.map Char.toLower)

/-- The characters of names in capitals. -/
def IsNameChar (c : Char) : Prop := c.isUpper = true ∨ c.isDigit = true ∨ c = '_'

instance : DecidablePred IsNameChar := fun _ => inferInstanceAs (Decidable (_ ∨ _))

/-- The name of a cookie in the name of a variable: letters in capitals, digits, and underscores of which
no two stand side by side. -/
structure IsWord (word : List Char) : Prop where
  ne_nil : word ≠ []
  mem : ∀ c ∈ word, IsNameChar c
  single : word.IsChain fun a b => ¬(a = '_' ∧ b = '_')

/-- The names that mean something. -/
inductive IsSetting (name : String) : Prop where
  | baseUrl (h : inCapitals name = "SCREENER_BASE_URL")
  | userAgent (h : inCapitals name = "SCREENER_USER_AGENT")
  | cookie (word : List Char) (hword : IsWord word)
      (h : inCapitals name = "SCREENER_COOKIES__" ++ String.ofList word)

theorem lowerChar_eq_toLower {c : Char} (h : IsNameChar c.toUpper) :
    lowerChar c = c.toUpper.toLower := by
  have hkelvin : c ≠ '\u212A' := by
    rintro rfl
    revert h
    decide
  rw [lowerChar, if_neg hkelvin, ← Char.toNat_inj, toNat_toLower, toNat_toLower, toNat_toUpper]
  split_ifs <;> omega

/-- A name of such characters is lowered alike in both ways. -/
theorem map_lowerChar {name : List Char} (h : ∀ c ∈ name.map Char.toUpper, IsNameChar c) :
    name.map lowerChar = (name.map Char.toUpper).map Char.toLower := by
  rw [List.map_map]
  exact List.map_congr_left fun c hc => lowerChar_eq_toLower (h _ (List.mem_map_of_mem hc))

/-! ## Paths of settings -/

theorem dotted_cons {c : Char} {s : List Char} (h : ∀ t, c :: s ≠ '_' :: '_' :: t) :
    dotted (c :: s) = c :: dotted s := by
  rw [dotted]
  exact fun t hc hs => h t (by rw [hc, hs])

theorem dotted_of_single {word : List Char} (h : word.IsChain fun a b => ¬(a = '_' ∧ b = '_')) :
    dotted word = word := by
  induction h with
  | nil => rfl
  | singleton a => exact dotted_cons nofun
  | cons_cons hab h ih =>
    rw [dotted_cons, ih]
    rintro t ⟨⟩
    exact hab ⟨rfl, rfl⟩

/-- What follows the mark in a name is a path. -/
theorem settingName?_eq_some {name : String} {s : List Char} (hs : ∀ c ∈ s, IsNameChar c)
    (h : inCapitals name = String.ofList ("SCREENER_".toList ++ s)) :
    settingName? name = some (String.ofList (dotted (s.map Char.toLower))) := by
  have hcapitals : name.toList.map Char.toUpper = "SCREENER_".toList ++ s := String.ofList_injective h
  have hmark : ∀ c ∈ "SCREENER_".toList, IsNameChar c := List.all_iff_forall_prop.mp (by decide)
  have hlower : name.toList.map lowerChar = variableMark ++ s.map Char.toLower := by
    have hall := List.forall_mem_append.mpr ⟨hmark, hs⟩
    rw [← hcapitals] at hall
    rw [map_lowerChar hall, hcapitals, List.map_append]
    congr 1
  have hbegins : variableMark.isPrefixOf (variableMark ++ s.map Char.toLower) = true :=
    List.isPrefixOf_iff_prefix.mpr (List.prefix_append _ _)
  rw [settingName?, hlower, if_pos hbegins, List.drop_left]

theorem settingName?_baseUrl {name : String} (h : inCapitals name = "SCREENER_BASE_URL") :
    settingName? name = some "base_url" :=
  settingName?_eq_some (s := "BASE_URL".toList) (List.all_iff_forall_prop.mp (by decide)) h

theorem settingName?_userAgent {name : String} (h : inCapitals name = "SCREENER_USER_AGENT") :
    settingName? name = some "user_agent" :=
  settingName?_eq_some (s := "USER_AGENT".toList) (List.all_iff_forall_prop.mp (by decide)) h

/-! ## The names of cookies -/

theorem isUpper_iff {c : Char} : c.isUpper = true ↔ 65 ≤ c.toNat ∧ c.toNat ≤ 90 :=
  decide_eq_true_iff.trans (and_congr UInt32.le_iff_toNat_le UInt32.le_iff_toNat_le)

theorem between_iff {a b c : Char} :
    (decide (c.val ≥ a.val) && decide (c.val ≤ b.val)) = true ↔
      a.toNat ≤ c.toNat ∧ c.toNat ≤ b.toNat := by
  rw [Bool.and_eq_true, decide_eq_true_eq, decide_eq_true_eq]
  exact and_congr UInt32.le_iff_toNat_le UInt32.le_iff_toNat_le

theorem isWordChar_of_isAlphanum {c : Char} (h : c.isAlphanum = true) :
    KeyPath.isWordChar c = true := by
  rw [KeyPath.isWordChar, h, Bool.true_or, Bool.true_or]

theorem isWordChar_toLower {c : Char} (h : IsNameChar c) : KeyPath.isWordChar c.toLower = true := by
  rcases h with hupper | hdigit | rfl
  · have hbounds := isUpper_iff.mp hupper
    have hlower : c.toLower.isLower = true := by
      refine between_iff.mpr ?_
      rw [toNat_toLower, if_pos hbounds]
      show 97 ≤ _ ∧ _ ≤ 122
      omega
    have halpha : c.toLower.isAlpha = true := Bool.or_eq_true_iff.mpr (.inr hlower)
    exact isWordChar_of_isAlphanum (Bool.or_eq_true_iff.mpr (.inl halpha))
  · have hbounds : 48 ≤ c.toNat ∧ c.toNat ≤ 57 := between_iff.mp hdigit
    have hsame : c.toLower = c := by
      rw [← Char.toNat_inj, toNat_toLower, if_neg]
      omega
    rw [hsame]
    exact isWordChar_of_isAlphanum (Bool.or_eq_true_iff.mpr (.inr hdigit))
  · decide

theorem toLower_eq_underscore_iff {c : Char} : c.toLower = '_' ↔ c = '_' := by
  rw [← Char.toNat_inj, ← Char.toNat_inj, toNat_toLower]
  show _ = 95 ↔ _ = 95
  split_ifs <;> omega

namespace IsWord

variable {word : List Char} (h : IsWord word)
include h

theorem single_toLower : (word.map Char.toLower).IsChain fun a b => ¬(a = '_' ∧ b = '_') := by
  simp only [List.isChain_map, toLower_eq_underscore_iff]
  exact h.single

theorem isWordChar_of_mem : ∀ c ∈ word.map Char.toLower, KeyPath.isWordChar c = true := by
  intro c hc
  obtain ⟨c, hmem, rfl⟩ := List.mem_map.mp hc
  exact isWordChar_toLower (h.mem c hmem)

end IsWord

theorem settingName?_cookie {name : String} {word : List Char} (hword : IsWord word)
    (h : inCapitals name = "SCREENER_COOKIES__" ++ String.ofList word) :
    settingName? name = some ("cookies." ++ String.ofList (word.map Char.toLower)) := by
  have hchars : ∀ c ∈ "COOKIES__".toList ++ word, IsNameChar c :=
    List.forall_mem_append.mpr ⟨List.all_iff_forall_prop.mp (by decide), hword.mem⟩
  have hname : inCapitals name = String.ofList ("SCREENER_".toList ++ ("COOKIES__".toList ++ word)) := by
    rw [h, ← List.append_assoc, String.ofList_append]
    rfl
  rw [settingName?_eq_some hchars hname, List.map_append]
  have hdotted : dotted ("COOKIES__".toList.map Char.toLower ++ word.map Char.toLower) =
      "cookies.".toList ++ dotted (word.map Char.toLower) := rfl
  rw [hdotted, dotted_of_single hword.single_toLower, String.ofList_append, String.ofList_toList]

/-- **The path of a cookie leads to its name in the table of the cookies.** -/
theorem read_cookie {word : List Char} (hne : word ≠ [])
    (hchars : ∀ c ∈ word, KeyPath.isWordChar c = true) :
    KeyPath.read ("cookies." ++ String.ofList word) =
      ⟨"cookies", [.key (String.ofList word)]⟩ := by
  have hname : ("cookies." ++ String.ofList word).toList = "cookies".toList ++ '.' :: word := by
    simp [String.toList_append]
  have htake : word.takeWhile KeyPath.isWordChar = word := List.takeWhile_eq_self_iff.mpr hchars
  have hdrop : word.dropWhile KeyPath.isWordChar = [] := List.dropWhile_eq_nil_iff.mpr hchars
  have hempty : word.isEmpty = false := List.isEmpty_eq_false_iff.mpr hne
  have hsteps (fuel : Nat) : KeyPath.segments? (fuel + 1) ('.' :: word) =
      some [.key (String.ofList word)] := by
    rw [KeyPath.segments?, htake, hdrop, hempty]
    cases fuel <;> rfl
  have hroot : ∀ c ∈ "cookies".toList, KeyPath.isWordChar c = true :=
    List.all_iff_forall_prop.mp (by decide)
  have hdot : ('.' :: word).takeWhile KeyPath.isWordChar = [] := rfl
  have hdot' : ('.' :: word).dropWhile KeyPath.isWordChar = '.' :: word := rfl
  rw [KeyPath.read, KeyPath.read?, hname, List.takeWhile_append_of_pos hroot,
    List.dropWhile_append_of_pos hroot, hdot, hdot', List.length_append, List.length_cons,
    ← Nat.add_assoc, hsteps]
  rfl

/-! ## What an environment sets -/

namespace Environment

/-- The value of the last variable of a name, which is given in capitals. -/
def value? (env : Environment) (name : String) : Option String :=
  Entries.lastValue name (env.map fun v => (inCapitals v.1, v.2))

/-- The cookie that a variable sets, by its name in small letters. -/
def cookieOf? (v : String × String) : Option (String × String) :=
  let name := (inCapitals v.1).toList
  let mark := "SCREENER_COOKIES__".toList
  if mark.isPrefixOf name then some (inSmall (String.ofList (name.drop mark.length)), v.2) else none

/-- The value of the last variable that sets a cookie. -/
def cookie? (env : Environment) (name : String) : Option String :=
  Entries.lastValue name (env.filterMap cookieOf?)

end Environment

theorem not_isMarked_iff {name : String} :
    ¬IsMarked name ↔ (inCapitals name).toList.take 9 ≠ "SCREENER_".toList := by
  simp only [IsMarked, inCapitals, String.toList_ofList, List.map_take, Ne]

/-- The settings outside the table of the cookies, and the variables that set them. -/
def topSettings : List (String × String) :=
  [("base_url", "SCREENER_BASE_URL"), ("user_agent", "SCREENER_USER_AGENT")]

theorem mem_topKeys {e : String × String} (h : e ∈ topSettings) : e.1 ∈ topKeys :=
  List.mem_map_of_mem h

/-- What a variable may be to the settings. -/
inductive Meaning (v : String × String) : Prop where
  | top (e : String × String) (he : e ∈ topSettings) (hname : inCapitals v.1 = e.2)
      (hsaid : said? v = some (e.1, v.2)) (hcookie : Environment.cookieOf? v = none)
  | cookie (name : String)
      (hread : KeyPath.read ("cookies." ++ name) = ⟨"cookies", [.key name]⟩)
      (hname : ∀ e ∈ topSettings, inCapitals v.1 ≠ e.2)
      (hsaid : said? v = some ("cookies." ++ name, v.2))
      (hcookie : Environment.cookieOf? v = some (name, v.2))
  | nothing (hname : ∀ e ∈ topSettings, inCapitals v.1 ≠ e.2)
      (hsaid : said? v = none) (hcookie : Environment.cookieOf? v = none)

section Meaning

variable {v : String × String}

theorem meaning_top {e : String × String} (he : e ∈ topSettings) (hname : inCapitals v.1 = e.2)
    (hsetting : settingName? v.1 = some e.1) : Meaning v := by
  have hnone : ∀ e ∈ topSettings, "SCREENER_COOKIES__".toList.isPrefixOf e.2.toList = false := by
    decide
  refine .top e he hname ?_ ?_
  · rw [said?, hsetting]
    rfl
  · rw [Environment.cookieOf?, hname]
    exact if_neg (Bool.eq_false_iff.mp (hnone e he))

theorem meaning_cookie {word : List Char} (hword : IsWord word)
    (hname : inCapitals v.1 = "SCREENER_COOKIES__" ++ String.ofList word) : Meaning v := by
  have hne : word.map Char.toLower ≠ [] := mt List.map_eq_nil_iff.mp hword.ne_nil
  refine .cookie (String.ofList (word.map Char.toLower)) (read_cookie hne hword.isWordChar_of_mem)
    ?_ ?_ ?_
  · intro e he
    rw [hname]
    refine append_ne ?_ _
    revert e
    decide
  · rw [said?, settingName?_cookie hword hname]
    rfl
  · have hbegins : "SCREENER_COOKIES__".toList.isPrefixOf ("SCREENER_COOKIES__".toList ++ word) = true :=
      List.isPrefixOf_iff_prefix.mpr (List.prefix_append _ _)
    have hsmall : inSmall (String.ofList word) = String.ofList (word.map Char.toLower) := by
      rw [inSmall, String.toList_ofList]
    rw [Environment.cookieOf?, hname, String.toList_append, String.toList_ofList (l := word),
      if_pos hbegins, List.drop_left, hsmall]

theorem meaning_of_not_isMarked (h : ¬IsMarked v.1) : Meaning v := by
  have hbegin := not_isMarked_iff.mp h
  have hmarked : ∀ e ∈ topSettings, e.2.toList.take 9 = "SCREENER_".toList := by decide
  refine .nothing ?_ (said?_of_not_isMarked h) ?_
  · intro e he hname
    rw [hname] at hbegin
    exact hbegin (hmarked e he)
  · rw [Environment.cookieOf?, if_neg]
    intro hcookie
    obtain ⟨t, ht⟩ := List.isPrefixOf_iff_prefix.mp hcookie
    rw [← ht] at hbegin
    exact hbegin rfl

/-- A variable sets a setting, or a cookie, or nothing. -/
theorem meaning (h : IsSetting v.1 ∨ ¬IsMarked v.1) : Meaning v := by
  rcases h with (hname | hname | ⟨word, hword, hname⟩) | h
  · exact meaning_top (e := ("base_url", _)) (by decide) hname (settingName?_baseUrl hname)
  · exact meaning_top (e := ("user_agent", _)) (by decide) hname (settingName?_userAgent hname)
  · exact meaning_cookie hword hname
  · exact meaning_of_not_isMarked h

end Meaning

/-! ## Settings and variables -/

section Values

open Entries (lastValue valueOf?)

variable {env : Environment} (henv : ∀ v ∈ env, IsSetting v.1 ∨ ¬IsMarked v.1)
include henv

/-- What the environment says of a setting is what its variables say one by one. -/
theorem lastValue_said {setting key : String} {f : String × String → Option (String × String)}
    (h : ∀ v, Meaning v →
      (said? v).bind (valueOf? setting) = (f v).bind (valueOf? key)) :
    lastValue setting (env.filterMap said?) = lastValue key (env.filterMap f) := by
  rw [Entries.lastValue_eq_getLast?, Entries.lastValue_eq_getLast?, List.filterMap_filterMap,
    List.filterMap_filterMap]
  exact congrArg _ (List.filterMap_congr fun v hv => h v (meaning (henv v hv)))

theorem lastValue_top {e : String × String} (he : e ∈ topSettings) :
    lastValue e.1 (env.filterMap said?) = env.value? e.2 := by
  rw [Environment.value?, ← List.filterMap_eq_map']
  refine lastValue_said henv fun v hv => ?_
  cases hv with
  | top e' he' hname hsaid =>
    have hsame : ∀ e ∈ topSettings, ∀ e' ∈ topSettings, e'.1 = e.1 ↔ e'.2 = e.2 := by decide
    by_cases h : e'.2 = e.2 <;> simp [hsaid, hname, hsame e he e' he', h, valueOf?]
  | cookie name _ hname hsaid =>
    simp [hsaid, hname e he, cookies_append_ne (mem_topKeys he), valueOf?]
  | nothing hname hsaid => simp [hsaid, hname e he, valueOf?]

theorem lastValue_cookie (name : String) : lastValue ("cookies." ++ name) (env.filterMap said?) =
    env.cookie? name := by
  refine lastValue_said henv fun v hv => ?_
  cases hv with
  | top e he hname hsaid hcookie =>
    have hne : e.1 ≠ "cookies." ++ name := (cookies_append_ne (mem_topKeys he) name).symm
    simp [hsaid, hcookie, hne, valueOf?]
  | cookie other _ hname hsaid hcookie =>
    have hsame : "cookies." ++ other = "cookies." ++ name ↔ other = name := String.append_right_inj _
    by_cases hother : other = name <;> simp [hsaid, hcookie, hsame, hother, valueOf?]
  | nothing hname hsaid hcookie => simp [hsaid, hcookie]

end Values

end MarketScan.Settings
