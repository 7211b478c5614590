import Mathlib
import MailRules.Settings.Basic
import MailRules.Proofs.Rule.Evaluation
import MailRules.Proofs.Text.Numeral

/-!
# What settings take from the environment

A variable comes into the settings of a program in one of three ways: it stands in for what the file
says, a marker names it, or it is the home directory. `Settings.load_in_environment` says what comes
of that, and that no other variable has any part in it. In particular a marker of the file in whose
place a variable stands is not looked up, and what a variable has brought in is taken as it is.

The texts are kept as one list, in the order in which they are looked up (`Settings.texts`). To
resolve markers is then to go through that list (`resolved_eq`), so that what is reported is the
first of its texts that is at fault. The limit is no text of that list: it comes before all of them
(`inEnvironment_eq`).
-/

namespace MailRules

/-! ## Going through a list -/

section Lists

variable {ε α β : Type} {f g : α → Except ε β} {l : List α}

theorem mapM_cons_cases (a : α) (l : List α) :
    (a :: l).mapM f =
      match f a with
      | .error e => .error e
      | .ok b => (l.mapM f).map (b :: ·) := by
  rw [List.mapM_cons]
  cases f a with
  | error e => rfl
  | ok b => cases l.mapM f <;> simp [bind, Except.bind, Except.map, pure, Except.pure]

theorem mapM_eq_ok_iff {bs : List β} :
    l.mapM f = .ok bs ↔ List.Forall₂ (fun a b ↦ f a = .ok b) l bs := by
  induction l generalizing bs with
  | nil => simp [pure, Except.pure, eq_comm]
  | cons a l ih =>
    rw [mapM_cons_cases, List.forall₂_cons_left_iff]
    cases ha : f a with
    | error e => simp
    | ok b =>
      cases hl : l.mapM f with
      | error e => simp [← ih, hl, Except.map]
      | ok bs' => simp [← ih, hl, Except.map, eq_comm]

/-- A list fails with the first of its elements that does. -/
theorem mapM_eq_error_iff {e : ε} :
    l.mapM f = .error e ↔
      ∃ i, FirstAt l i (fun a ↦ ∃ b, f a = .ok b) (fun a ↦ f a = .error e) := by
  induction l with
  | nil => simp [FirstAt.not_nil, pure, Except.pure]
  | cons a l ih =>
    rw [mapM_cons_cases, FirstAt.exists_cons_iff, ← ih]
    cases ha : f a with
    | error e' => simp
    | ok b => cases hl : l.mapM f <;> simp [Except.map]

theorem mapM_congr (h : ∀ a ∈ l, f a = g a) : l.mapM f = l.mapM g := by
  induction l with
  | nil => rfl
  | cons a l ih =>
    obtain ⟨ha, hl⟩ := List.forall_mem_cons.mp h
    rw [mapM_cons_cases, mapM_cons_cases, ha, ih hl]

end Lists

namespace Settings

variable {env env' : Environment} {s t : Settings}

/-! ## Markers -/

/-- The value that a text stands for: that of the variable which it names, if it names one, and else
the text itself. -/
inductive StandsFor (env : Environment) : String → String → Prop
  | itself {text : String} (plain : ∀ name, text ≠ "env:" ++ name) : StandsFor env text text
  | variable {name value : String} (set : env name = some value) :
      StandsFor env ("env:" ++ name) value

/-- The text is a marker, and the variable that it names is not set. -/
def Lacks (env : Environment) (name text : String) : Prop := text = "env:" ++ name ∧ env name = none

theorem marked?_eq_some_iff {text name : String} :
    marked? text = some name ↔ text = "env:" ++ name := by
  constructor
  · intro h
    unfold marked? at h
    split at h
    next rest htext =>
      obtain rfl := Option.some.inj h
      rw [← String.toList_inj, htext]
      simp
    next => cases h
  · rintro rfl
    simp [marked?]

theorem marked?_eq_none_iff {text : String} :
    marked? text = none ↔ ∀ name, text ≠ "env:" ++ name := by
  simp only [Option.eq_none_iff_forall_ne_some, ne_eq, marked?_eq_some_iff]

theorem resolve_marker (name : String) :
    resolve env ("env:" ++ name) =
      match env name with
      | some value => .ok value
      | none => .error (.missingVariable name) := by
  have hmarked : marked? ("env:" ++ name) = some name := marked?_eq_some_iff.mpr rfl
  cases hset : env name with
  | none => simp only [resolve, hmarked, hset]
  | some value => simp only [resolve, hmarked, hset]

theorem resolve_eq_ok_iff {text value : String} :
    resolve env text = .ok value ↔ StandsFor env text value := by
  constructor
  · intro h
    cases hm : marked? text with
    | none =>
      rw [resolve, hm] at h
      obtain rfl := Except.ok.inj h
      exact StandsFor.itself (marked?_eq_none_iff.mp hm)
    | some name =>
      obtain rfl := marked?_eq_some_iff.mp hm
      rw [resolve_marker] at h
      cases hset : env name with
      | none => simp [hset] at h
      | some value' =>
        obtain rfl : value' = value := by simpa [hset] using h
        exact StandsFor.variable hset
  · rintro (plain | set)
    · rw [resolve, marked?_eq_none_iff.mpr plain]
    · rw [resolve_marker, set]

theorem resolve_eq_error_iff {text : String} {error : LoadError} :
    resolve env text = .error error ↔
      ∃ name, Lacks env name text ∧ error = .missingVariable name := by
  constructor
  · intro h
    cases hm : marked? text with
    | none => simp [resolve, hm] at h
    | some name =>
      obtain rfl := marked?_eq_some_iff.mp hm
      rw [resolve_marker] at h
      cases hset : env name with
      | none => exact ⟨name, ⟨rfl, hset⟩, by simpa [hset, eq_comm] using h⟩
      | some value => simp [hset] at h
  · rintro ⟨name, ⟨rfl, hset⟩, rfl⟩
    rw [resolve_marker, hset]

theorem mapM_resolve_eq_ok_iff {texts values : List String} :
    texts.mapM (resolve env) = .ok values ↔ List.Forall₂ (StandsFor env) texts values := by
  simp only [mapM_eq_ok_iff, resolve_eq_ok_iff]

theorem resolve_congr {text : String} (h : ∀ name, text = "env:" ++ name → env name = env' name) :
    resolve env text = resolve env' text := by
  cases hm : marked? text with
  | none => rw [resolve, resolve, hm]
  | some name =>
    obtain rfl := marked?_eq_some_iff.mp hm
    rw [resolve_marker, resolve_marker, h name rfl]

/-! ## What stands in for the file -/

/-- What the settings say before any marker is resolved, the limit apart. -/
def raw (env : Environment) (s : Settings) : Settings :=
  { s with
    paths :=
      { s.paths with
        database := (env "MAILSIFT_DATABASE").getD s.paths.database
        rules := (env "MAILSIFT_RULES").getD s.paths.rules } }

def withLimit (limit : ℕ) (s : Settings) : Settings :=
  { s with service := { s.service with limit } }

/-- The limit in the environment, where the file says `file`. -/
inductive LimitIs (env : Environment) (file : ℕ) : ℕ → Prop
  | file (unset : env "MAILSIFT_FETCH_LIMIT" = none) : LimitIs env file file
  | variable {text : String} {n : ℕ} (set : env "MAILSIFT_FETCH_LIMIT" = some text)
      (spells : Text.SpellsUnsigned text.toList n) : LimitIs env file n

theorem overriddenLimit_eq_ok_iff {file n : ℕ} :
    overriddenLimit env file = .ok n ↔ LimitIs env file n := by
  constructor
  · intro h
    unfold overriddenLimit at h
    split at h
    next unset =>
      obtain rfl := Except.ok.inj h
      exact LimitIs.file unset
    next text set =>
      split at h
      next n' hn =>
        obtain rfl := Except.ok.inj h
        exact LimitIs.variable set (Text.unsigned64_eq_ok_iff.mp hn)
      next => cases h
  · rintro (unset | ⟨set, spells⟩)
    · rw [overriddenLimit, unset]
    · simp only [overriddenLimit, set, Text.unsigned64_eq_ok_iff.mpr spells]

theorem exists_invalidLimit_of_overriddenLimit {file : ℕ} {error : LoadError}
    (h : overriddenLimit env file = .error error) : ∃ fault, error = .invalidLimit fault := by
  unfold overriddenLimit at h
  split at h
  next => cases h
  next =>
    split at h
    next => cases h
    next fault _ => exact ⟨fault, (Except.error.inj h).symm⟩

/-! ## All texts at once -/

/-- The settings with these texts, in the order of `texts`. -/
def withTexts (s : Settings) : List String → Settings
  | [name, environment, user, apiBase, label, database, rules, credentials] =>
    { program := { name, environment }
      paths := { database, rules, credentials }
      service := { s.service with user, apiBase, label } }
  | _ => s

theorem resolved_eq (env : Environment) (s : Settings) :
    s.resolved env = s.withTexts <$> s.texts.mapM (resolve env) := by
  simp only [resolved, texts, List.mapM_cons, List.mapM_nil, bind_assoc, pure_bind, map_bind,
    map_pure, withTexts]

theorem texts_withTexts {values : List String} (h : values.length = s.texts.length) :
    (s.withTexts values).texts = values := by
  match values, h with
  | [_, _, _, _, _, _, _, _], _ => rfl

@[simp] theorem withTexts_limit (values : List String) :
    (s.withTexts values).service.limit = s.service.limit := by
  unfold withTexts
  split <;> rfl

@[simp] theorem expanded_limit : (s.expanded env).service.limit = s.service.limit := rfl

theorem texts_expanded (env : Environment) (s : Settings) :
    (s.expanded env).texts =
      s.texts.take 5 ++ (s.texts.drop 5).map (expandHome (home env)) :=
  rfl

/-- What comes of the settings is the first thing that is wrong with the limit and then with the
texts, or else these with the paths written out. -/
theorem inEnvironment_eq (env : Environment) (s : Settings) :
    s.inEnvironment env =
      match overriddenLimit env s.service.limit with
      | .error error => .error error
      | .ok limit =>
        (fun values ↦ (((raw env s).withLimit limit).withTexts values).expanded env) <$>
          (raw env s).texts.mapM (resolve env) := by
  rw [inEnvironment, overridden]
  cases overriddenLimit env s.service.limit with
  | error error => rfl
  | ok limit =>
    change (resolved env ((raw env s).withLimit limit) >>= fun t ↦ pure (t.expanded env)) = _
    rw [resolved_eq, bind_pure_comp, Functor.map_map]
    rfl

/-! ## What is looked at -/

/-- What the file says, if it says settings. -/
def ofFile? (d : Disk) (path : String) : Option Settings :=
  (source d path).toOption.bind ofSetting?

theorem load_eq_inEnvironment {d : Disk} {path : String} (h : ofFile? d path = some s) :
    load d env path = s.inEnvironment env := by
  obtain ⟨root, hroot, hs⟩ := Option.bind_eq_some_iff.mp h
  rw [load]
  cases hsource : source d path with
  | error fault => simp [hsource, Except.toOption] at hroot
  | ok root' =>
    obtain rfl : root' = root := by simpa [hsource, Except.toOption] using hroot
    simp only [hs]

/-- The variables that have a part in the settings: three that stand in for what the file says,
those that markers name which nothing stands in for, and the one for the home directory. -/
def consulted (env : Environment) (s : Settings) : List String :=
  ["MAILSIFT_FETCH_LIMIT", "MAILSIFT_DATABASE", "MAILSIFT_RULES"] ++ (raw env s).markedNames ++
    ["HOME"]

theorem inEnvironment_congr (h : ∀ name ∈ consulted env s, env name = env' name) :
    s.inEnvironment env = s.inEnvironment env' := by
  have hlimit : env "MAILSIFT_FETCH_LIMIT" = env' "MAILSIFT_FETCH_LIMIT" :=
    h _ (by simp [consulted])
  have hdatabase : env "MAILSIFT_DATABASE" = env' "MAILSIFT_DATABASE" := h _ (by simp [consulted])
  have hrules : env "MAILSIFT_RULES" = env' "MAILSIFT_RULES" := h _ (by simp [consulted])
  have hhome : home env = home env' := by rw [home, home, h "HOME" (by simp [consulted])]
  have hraw : raw env s = raw env' s := by rw [raw, raw, hdatabase, hrules]
  have hmarked : (raw env s).texts.mapM (resolve env) = (raw env s).texts.mapM (resolve env') := by
    apply mapM_congr
    intro text htext
    apply resolve_congr
    rintro name rfl
    apply h
    simp only [consulted, List.mem_append, markedNames, List.mem_filterMap]
    exact Or.inl (Or.inr ⟨_, htext, marked?_eq_some_iff.mpr rfl⟩)
  rw [inEnvironment_eq, inEnvironment_eq, overriddenLimit, overriddenLimit, ← hlimit, ← hraw,
    ← hmarked]
  simp only [expanded, hhome]

/-! ## The whole of it -/

theorem eq_iff_texts : s = t ↔ s.texts = t.texts ∧ s.service.limit = t.service.limit := by
  constructor
  · rintro rfl
    exact ⟨rfl, rfl⟩
  · rintro ⟨htexts, hlimit⟩
    obtain ⟨⟨name, environment⟩, ⟨database, rules, credentials⟩, ⟨user, apiBase, label, limit⟩⟩ := s
    simp only [texts, List.cons.injEq, and_true] at htexts
    obtain ⟨rfl, rfl, rfl, rfl, rfl, rfl, rfl, rfl⟩ := htexts
    obtain rfl : limit = t.service.limit := hlimit
    rfl

theorem inEnvironment_eq_error_iff {error : LoadError} :
    s.inEnvironment env = .error error ↔
      overriddenLimit env s.service.limit = .error error ∨
        (∃ n, LimitIs env s.service.limit n) ∧
          ∃ i, FirstAt (raw env s).texts i (fun text ↦ ∃ value, StandsFor env text value)
            (fun text ↦ ∃ name, Lacks env name text ∧ error = .missingVariable name) := by
  simp only [← overriddenLimit_eq_ok_iff, ← resolve_eq_ok_iff, ← resolve_eq_error_iff,
    ← mapM_eq_error_iff]
  rw [inEnvironment_eq]
  cases overriddenLimit env s.service.limit with
  | error error' => simp
  | ok limit => cases (raw env s).texts.mapM (resolve env) <;> simp

theorem inEnvironment_eq_invalidLimit_iff :
    (∃ fault, s.inEnvironment env = .error (.invalidLimit fault)) ↔
      ∀ n, ¬LimitIs env s.service.limit n := by
  simp only [← overriddenLimit_eq_ok_iff]
  constructor
  · rintro ⟨fault, h⟩ n hn
    rcases inEnvironment_eq_error_iff.mp h with hlimit | ⟨-, i, before, text, after, -, -, -, hbad⟩
    · rw [hn] at hlimit
      cases hlimit
    · obtain ⟨name, -, himpossible⟩ := hbad
      cases himpossible
  · intro hnone
    cases hlimit : overriddenLimit env s.service.limit with
    | ok n => exact absurd hlimit (hnone n)
    | error error =>
      obtain ⟨fault, rfl⟩ := exists_invalidLimit_of_overriddenLimit hlimit
      exact ⟨fault, inEnvironment_eq_error_iff.mpr (Or.inl hlimit)⟩

theorem inEnvironment_eq_missingVariable_iff {name : String} :
    s.inEnvironment env = .error (.missingVariable name) ↔
      (∃ n, LimitIs env s.service.limit n) ∧
        ∃ i, FirstAt (raw env s).texts i (fun text ↦ ∃ value, StandsFor env text value)
          (Lacks env name) := by
  have hlimit : overriddenLimit env s.service.limit ≠ .error (.missingVariable name) := by
    intro h
    obtain ⟨fault, himpossible⟩ := exists_invalidLimit_of_overriddenLimit h
    cases himpossible
  rw [inEnvironment_eq_error_iff, or_iff_right hlimit]
  simp only [LoadError.missingVariable.injEq, exists_eq_right']

theorem inEnvironment_eq_ok_iff :
    s.inEnvironment env = .ok t ↔
      LimitIs env s.service.limit t.service.limit ∧
        ∃ values, List.Forall₂ (StandsFor env) (raw env s).texts values ∧
          t.texts = values.take 5 ++ (values.drop 5).map (expandHome (home env)) := by
  -- the settings of a limit and of as many texts as there are
  have hbuilt : ∀ limit values, (raw env s).texts.mapM (resolve env) = .ok values →
      ((((raw env s).withLimit limit).withTexts values).expanded env = t ↔
        limit = t.service.limit ∧
          t.texts = values.take 5 ++ (values.drop 5).map (expandHome (home env))) := by
    intro limit values hvalues
    have htexts : (((raw env s).withLimit limit).withTexts values).texts = values :=
      texts_withTexts (mapM_resolve_eq_ok_iff.mp hvalues).length_eq.symm
    rw [eq_iff_texts, texts_expanded, htexts, expanded_limit, withTexts_limit, and_comm,
      eq_comm (b := t.texts)]
    rfl
  simp only [← overriddenLimit_eq_ok_iff, ← mapM_resolve_eq_ok_iff]
  rw [inEnvironment_eq]
  cases overriddenLimit env s.service.limit with
  | error error => simp
  | ok limit =>
    cases hvalues : (raw env s).texts.mapM (resolve env) with
    | error error => simp
    | ok values => simpa using hbuilt limit values hvalues

/-- **What settings take from the environment.** A limit that is none is reported before anything
else, and then the first marker whose variable is not set. Else each text is what it stands for, and
the paths, which come last, are written out. Two environments that agree on what is consulted do not
differ in what comes of them. -/
theorem load_in_environment {d : Disk} {path : String} (h : ofFile? d path = some s)
    (env : Environment) :
    ((∃ fault, load d env path = .error (.invalidLimit fault)) ↔
      ∀ n, ¬LimitIs env s.service.limit n) ∧
    (∀ name, load d env path = .error (.missingVariable name) ↔
      (∃ n, LimitIs env s.service.limit n) ∧
        ∃ i, FirstAt (raw env s).texts i (fun text ↦ ∃ value, StandsFor env text value)
          (Lacks env name)) ∧
    (∀ t, load d env path = .ok t ↔
      LimitIs env s.service.limit t.service.limit ∧
        ∃ values, List.Forall₂ (StandsFor env) (raw env s).texts values ∧
          t.texts = values.take 5 ++ (values.drop 5).map (expandHome (home env))) ∧
    ∀ env', (∀ name ∈ consulted env s, env name = env' name) →
      load d env path = load d env' path := by
  refine ⟨?_, ?_, ?_, ?_⟩
  · rw [load_eq_inEnvironment h]
    exact inEnvironment_eq_invalidLimit_iff
  · intro name
    rw [load_eq_inEnvironment h]
    exact inEnvironment_eq_missingVariable_iff
  · intro t
    rw [load_eq_inEnvironment h]
    exact inEnvironment_eq_ok_iff
  · intro env' hagree
    rw [load_eq_inEnvironment h, load_eq_inEnvironment h]
    exact inEnvironment_congr hagree

/-- The marker for the database that the file has is hidden by a variable whose marker brings in a
tilde. The one for the environment brings in a text that looks like a marker. -/
theorem load_in_environment_of_hidden_marker :
    let text := "[app]\nservice_name = \"mail\"\nenv = \"env:STAGE\"\n" ++
      "[paths]\ndatabase = \"env:HIDDEN\"\nrules = \"~/rules.json\"\ncredentials = \"c.json\"\n"
    let disk : Disk := { entries := [(["config.toml".toList], .file (Text.glyphs text.toList))] }
    let common := [("STAGE", "env:HIDDEN"), ("MAILSIFT_DATABASE", "env:DB"), ("HOME", "/home/me")]
    let env (others : List (String × String)) : Environment :=
      fun name ↦ (common ++ others).lookup name
    let s : Settings := ⟨⟨"mail", "env:STAGE"⟩, ⟨"env:HIDDEN", "~/rules.json", "c.json"⟩, {}⟩
    let t : Settings := ⟨⟨"mail", "env:HIDDEN"⟩, ⟨"/home/me", "/home/me/rules.json", "c.json"⟩, {}⟩
    ofFile? disk "config.toml" = some s ∧
      load disk (env [("DB", "~")]) "config.toml" = .ok t ∧
      load disk (env [("DB", "~"), ("HIDDEN", "mail.db")]) "config.toml" = .ok t ∧
      load disk (env []) "config.toml" = .error (.missingVariable "DB") ∧
      load disk (env [("MAILSIFT_FETCH_LIMIT", "-1")]) "config.toml" =
        .error (.invalidLimit .notADigit) := by
  intro text disk common env s t
  have h : ofFile? disk "config.toml" = some s := by decide +kernel
  obtain ⟨-, -, hok, hcongr⟩ := load_in_environment h (env [("DB", "~")])
  have ht : load disk (env [("DB", "~")]) "config.toml" = .ok t := by
    refine (hok t).mpr ⟨LimitIs.file (by decide), ["mail", "env:HIDDEN", "me",
      "https://gmail.googleapis.com/gmail/v1/users", "INBOX", "~", "~/rules.json", "c.json"],
      mapM_resolve_eq_ok_iff.mp ?_, ?_⟩
    · decide +kernel
    · decide +kernel
  refine ⟨h, ht, ?_, ?_, ?_⟩
  · rw [← hcongr _ (by decide +kernel)]
    exact ht
  · rw [load_eq_inEnvironment h]
    decide +kernel
  · rw [load_eq_inEnvironment h]
    decide +kernel

end Settings

end MailRules
