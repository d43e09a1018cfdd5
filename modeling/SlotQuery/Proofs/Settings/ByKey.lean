import SlotQuery.Proofs.Settings.Keys

/-!
# Settings key by key

The settings are read from the sections of the laid table, and a section is read whole or not at all.
Still every setting depends on the value chosen at its own key only, and reading fails on an invalid
value only: by `holds_chosen` no section lacks a key. Main statement: `load_by_key`.
-/

namespace SlotQuery

open Text Toml

namespace Settings

variable {t : Table} {c : Key → Toml} {v : Toml}

/-! ## Reading a section -/

/-- The values of keys that are all there. -/
theorem mapM_get?_of_forall {u : Table} {ks : List Key} (h : ∀ k ∈ ks, u.get? k.name = some (c k)) :
    (ks.map Key.name).mapM u.get? = some (ks.map c) := by
  induction ks with
  | nil => rfl
  | cons k ks ih =>
    obtain ⟨hk, hks⟩ := List.forall_mem_cons.1 h
    have hrest := ih hks
    simp [hk, hrest]

/-- A section has the values of its keys. -/
theorem Holds.sectionOf_eq (h : Holds t c) (k : Key) (ks : List Key)
    (hks : ∀ k' ∈ ks, k'.table = k.table) :
    sectionOf t k.table ((k :: ks).map Key.name) = .ok ((k :: ks).map c) := by
  obtain ⟨u, hu, hk⟩ := h k
  have hall : ∀ k' ∈ k :: ks, Table.get? u k'.name = some (c k') := by
    rw [List.forall_mem_cons]
    refine ⟨hk, fun k' hk' => ?_⟩
    obtain ⟨u', hu', hvalue⟩ := h k'
    rw [hks k' hk', hu] at hu'
    cases hu'
    exact hvalue
  rw [sectionOf, hu, Option.bind_some, section?, mapM_get?_of_forall hall]

theorem bind_eq_ok_iff {ε α β : Type} {x : Except ε α} {f : α → Except ε β} {b : β} :
    x >>= f = .ok b ↔ ∃ a, x = .ok a ∧ f a = .ok b := by
  cases x with
  | error e => simp [bind, Except.bind]
  | ok a => simp [bind, Except.bind]

theorem valueOf_eq_ok_iff {α : Type} {name : String} {a? : Option α} {a : α} :
    valueOf name a? = .ok a ↔ a? = some a := by
  cases a? with
  | none => simp [valueOf]
  | some a' => simp [valueOf]

theorem Holds.wait_eq (h : Holds t c) :
    sectionOf t "wait" ["interval_ms", "timeout", "mode"] =
      .ok [c .interval, c .timeout, c .mode] :=
  h.sectionOf_eq .interval [.timeout, .mode] (by decide)

theorem Holds.fleet_eq (h : Holds t c) :
    sectionOf t "fleet" ["ip_version", "last_seen_timeout_secs"] =
      .ok [c .version, c .lastSeen] :=
  h.sectionOf_eq .version [.lastSeen] (by decide)

theorem Holds.logging_eq (h : Holds t c) :
    sectionOf t "logging" ["level", "format"] = .ok [c .level, c .format] :=
  h.sectionOf_eq .level [.format] (by decide)

/-- Tables with the same value at every key have the same settings, or fail alike. -/
theorem Holds.ofTable_congr {t' : Table} (h : Holds t c) (h' : Holds t' c) :
    ofTable t = ofTable t' := by
  simp only [ofTable, waitOf, fleetOf, loggingOf, h.wait_eq, h'.wait_eq, h.fleet_eq, h'.fleet_eq,
    h.logging_eq, h'.logging_eq]

/-- A timeout is read from the text of the value. -/
theorem limit_eq_some_iff {limit : Timeout} :
    (asText? v).bind (fun text => (Timeout.parse text).toOption) = some limit ↔
      ∃ text, v.Spells text ∧ limit.IsText text := by
  have hread {text : String} : (Timeout.parse text).toOption = some limit ↔ limit.IsText text := by
    rw [← Timeout.parse_eq_ok_iff]
    cases Timeout.parse text <;> simp [Except.toOption]
  simp only [Option.bind_eq_some_iff, asText?_eq_some_iff, hread]

theorem version_eq_some_iff {version : IpVersion} :
    (asText? v).bind IpVersion.parse? = some version ↔
      ∃ text, v.Spells text ∧ IsVersionText text version := by
  simp only [Option.bind_eq_some_iff, asText?_eq_some_iff, IpVersion.parse?_eq_some_iff]

variable {s : Settings}

/-- The options of a wait depend on the keys of their section only. -/
theorem Holds.waitOf_eq_ok_iff (h : Holds t c) :
    waitOf t = .ok s.wait ↔
      Key.interval.Sets s (c .interval) ∧ Key.timeout.Sets s (c .timeout) ∧ Key.mode.Sets s (c .mode) := by
  obtain ⟨⟨interval, limit, mode⟩, version, lastSeen, logging⟩ := s
  simp only [waitOf, h.wait_eq, bind_eq_ok_iff, Except.ok.injEq, exists_eq_left', valueOf_eq_ok_iff,
    pure, Except.pure, asCount?_eq_some_iff, limit_eq_some_iff, asMode?_eq_some_iff, WaitOptions.mk.injEq]
  constructor
  · rintro ⟨n, hn, limit, hlimit, mode, hmode, rfl, rfl, rfl⟩
    exact ⟨⟨n, hn, rfl⟩, hlimit, hmode⟩
  · rintro ⟨⟨n, hn, hinterval⟩, hlimit, hmode⟩
    exact ⟨n, hn, limit, hlimit, mode, hmode, congrArg Duration.mk hinterval.symm, rfl, rfl⟩

theorem Holds.fleetOf_eq_ok_iff (h : Holds t c) :
    fleetOf t = .ok (s.version, s.lastSeen) ↔
      Key.version.Sets s (c .version) ∧ Key.lastSeen.Sets s (c .lastSeen) := by
  have hsecs (n : ℕ) : Duration.ofSecs n = s.lastSeen ↔ s.lastSeen.nanos = n * 1000000000 := by
    obtain ⟨version, wait, ⟨nanos⟩, logging⟩ := s
    rw [Duration.ofSecs, Duration.ofParts, Nat.add_zero, Duration.perSecond, Duration.mk.injEq, eq_comm]
  simp only [fleetOf, h.fleet_eq, bind_eq_ok_iff, Except.ok.injEq, exists_eq_left', valueOf_eq_ok_iff,
    pure, Except.pure, Prod.mk.injEq, version_eq_some_iff, asCount?_eq_some_iff, hsecs]
  constructor
  · rintro ⟨version, hversion, n, hn, rfl, hlastSeen⟩
    exact ⟨hversion, n, hn, hlastSeen⟩
  · rintro ⟨hversion, n, hn, hlastSeen⟩
    exact ⟨s.version, hversion, n, hn, rfl, hlastSeen⟩

theorem Holds.loggingOf_eq_ok_iff (h : Holds t c) :
    loggingOf t = .ok s.logging ↔
      Key.level.Sets s (c .level) ∧ Key.format.Sets s (c .format) := by
  obtain ⟨wait, version, lastSeen, level, format⟩ := s
  simp only [loggingOf, h.logging_eq, bind_eq_ok_iff, Except.ok.injEq, exists_eq_left',
    valueOf_eq_ok_iff, pure, Except.pure, asText?_eq_some_iff, LogSettings.mk.injEq]
  constructor
  · rintro ⟨level, hlevel, format, hformat, rfl, rfl⟩
    exact ⟨hlevel, hformat⟩
  · rintro ⟨hlevel, hformat⟩
    exact ⟨level, hlevel, format, hformat, rfl, rfl⟩

theorem ofTable_eq_ok_iff :
    ofTable t = .ok s ↔
      waitOf t = .ok s.wait ∧ fleetOf t = .ok (s.version, s.lastSeen) ∧ loggingOf t = .ok s.logging := by
  rw [ofTable, bind_eq_ok_iff]
  constructor
  · rintro ⟨wait, hwait, h⟩
    obtain ⟨⟨version, lastSeen⟩, hfleet, h⟩ := bind_eq_ok_iff.1 h
    obtain ⟨logging, hlogging, h⟩ := bind_eq_ok_iff.1 h
    cases h
    exact ⟨hwait, hfleet, hlogging⟩
  · rintro ⟨hwait, hfleet, hlogging⟩
    exact ⟨s.wait, hwait, bind_eq_ok_iff.2 ⟨_, hfleet, bind_eq_ok_iff.2 ⟨_, hlogging, rfl⟩⟩⟩

/-- A table has the settings that have at every key what its value there means. -/
theorem Holds.ofTable_eq_ok_iff (h : Holds t c) :
    ofTable t = .ok s ↔ ∀ k : Key, k.Sets s (c k) := by
  rw [Settings.ofTable_eq_ok_iff, h.waitOf_eq_ok_iff, h.fleetOf_eq_ok_iff, h.loggingOf_eq_ok_iff]
  constructor
  · rintro ⟨⟨hinterval, htimeout, hmode⟩, ⟨hversion, hlastSeen⟩, hlevel, hformat⟩ k
    cases k with
    | interval => exact hinterval
    | timeout => exact htimeout
    | mode => exact hmode
    | version => exact hversion
    | lastSeen => exact hlastSeen
    | level => exact hlevel
    | format => exact hformat
  · intro hsets
    exact ⟨⟨hsets .interval, hsets .timeout, hsets .mode⟩, ⟨hsets .version, hsets .lastSeen⟩,
      hsets .level, hsets .format⟩

namespace Key

/-- A value that stands for something is of the type of its key. -/
theorem Sets.valid {k : Key} (h : k.Sets s v) : k.Valid v := by
  cases k with
  | interval | lastSeen =>
    obtain ⟨n, hn, -⟩ := h
    exact ⟨n, hn⟩
  | timeout =>
    obtain ⟨text, htext, hlimit⟩ := h
    exact ⟨text, _, htext, hlimit⟩
  | mode => exact ⟨_, h⟩
  | version =>
    obtain ⟨text, htext, hversion⟩ := h
    exact ⟨text, _, htext, hversion⟩
  | level | format => exact ⟨_, h⟩

/-- Values that are each of the type of their key are those of some settings. -/
theorem exists_sets (h : ∀ k : Key, k.Valid (c k)) : ∃ s, ∀ k : Key, k.Sets s (c k) := by
  obtain ⟨interval, hinterval⟩ := h .interval
  obtain ⟨text, limit, htext, hlimit⟩ := h .timeout
  obtain ⟨mode, hmode⟩ := h .mode
  obtain ⟨text', version, htext', hversion⟩ := h .version
  obtain ⟨lastSeen, hlastSeen⟩ := h .lastSeen
  obtain ⟨level, hlevel⟩ := h .level
  obtain ⟨format, hformat⟩ := h .format
  refine ⟨⟨⟨⟨interval * 1000000⟩, limit, mode⟩, version, ⟨lastSeen * 1000000000⟩, ⟨level, format⟩⟩, fun k => ?_⟩
  cases k with
  | interval => exact ⟨interval, hinterval, rfl⟩
  | timeout => exact ⟨text, htext, hlimit⟩
  | mode => exact hmode
  | version => exact ⟨text', htext', hversion⟩
  | lastSeen => exact ⟨lastSeen, hlastSeen, rfl⟩
  | level => exact hlevel
  | format => exact hformat

/-- A value means one thing only. -/
theorem Sets.agrees {k : Key} {s' : Settings} (h : k.Sets s v) (h' : k.Sets s' v) : k.Agrees s s' := by
  cases k with
  | interval | lastSeen =>
    obtain ⟨n, hn, hnanos⟩ := h
    obtain ⟨n', hn', hnanos'⟩ := h'
    rw [hn'.unique hn] at hnanos'
    exact congrArg Duration.mk (hnanos.trans hnanos'.symm)
  | timeout =>
    obtain ⟨text, htext, hlimit⟩ := h
    obtain ⟨text', htext', hlimit'⟩ := h'
    rw [htext'.unique htext] at hlimit'
    exact hlimit.unique hlimit'
  | mode => exact Names.unique h h'
  | version =>
    obtain ⟨text, htext, hversion⟩ := h
    obtain ⟨text', htext', hversion'⟩ := h'
    rw [htext'.unique htext] at hversion'
    exact hversion.unique hversion'
  | level | format => exact Spells.unique h h'

end Key

/-! ## Loading -/

/-- The file, where there is one, spells the table, which gives what it gives of the keys as scalars. No
file stands for the table without entries. -/
structure Reads (file : Option String) (t : Table) : Prop where
  spelt : file.elim (some []) Toml.parse? = some t
  gives : GivesScalars t

variable {file : Option String}

theorem Reads.distinct (h : Reads file t) : (Toml.table t).Distinct := by
  cases file with
  | none =>
    obtain rfl : [] = t := Option.some.inj h.spelt
    exact .table List.nodup_nil nofun
  | some content => exact distinct_of_parse? h.spelt

/-- Loading lays the file over the defaults and sets what the flags give. -/
theorem Reads.load_eq (h : Reads file t) (flags : Flags) :
    load (file.map some) flags = ofTable (setAll (overlay defaults t) flags.values) := by
  cases file with
  | none =>
    obtain rfl : [] = t := Option.some.inj h.spelt
    rw [overlay]
    simp [load, ofLayers, Layer.values, Layer.table, overlay, bind, Except.bind, pure, Except.pure]
  | some content =>
    have htable : fileTable content = .ok t := by
      have hspelt : Toml.parse? content = some t := h.spelt
      rw [fileTable, hspelt]
      exact congrArg Except.ok (spread_eq_self h.gives.no_path)
    simp [load, ofLayers, Layer.values, Layer.table, overlay, htable, bind, Except.bind, pure,
      Except.pure]

theorem Reads.holds (h : Reads file t) (flags : Flags) :
    Holds (setAll (overlay defaults t) flags.values) (Key.chosen flags t) :=
  holds_chosen flags h.distinct h.gives

/-- The settings that are loaded have at every key what the value chosen there stands for. -/
theorem Reads.load_eq_ok_iff (h : Reads file t) (flags : Flags) (s : Settings) :
    load (file.map some) flags = .ok s ↔ ∀ k : Key, k.Sets s (k.chosen flags t) := by
  rw [h.load_eq]
  exact (h.holds flags).ofTable_eq_ok_iff

/-- Loading fails only over a chosen value that is not of the type of its key. -/
theorem Reads.exists_load_eq_error_iff (h : Reads file t) (flags : Flags) :
    (∃ e, load (file.map some) flags = .error e) ↔ ∃ k : Key, ¬ k.Valid (k.chosen flags t) := by
  constructor
  · rintro ⟨e, he⟩
    by_cases hvalid : ∀ k : Key, k.Valid (k.chosen flags t)
    · obtain ⟨s, hs⟩ := Key.exists_sets hvalid
      have hload := (h.load_eq_ok_iff flags s).2 hs
      rw [he] at hload
      cases hload
    · exact Classical.not_forall.1 hvalid
  · rintro ⟨k, hk⟩
    cases hload : load (file.map some) flags with
    | error e => exact ⟨e, rfl⟩
    | ok s => exact absurd ((h.load_eq_ok_iff flags s).1 hload k).valid hk

/-- What a valid flag replaces in the file cannot make loading fail. -/
theorem Reads.exists_load_eq_error_iff_of_given? (h : Reads file t) {flags : Flags} {k : Key}
    (hgiven : k.given? flags = some v) (hv : k.Valid v) :
    (∃ e, load (file.map some) flags = .error e) ↔ ∃ k' : Key, k' ≠ k ∧ ¬ k'.Valid (k'.chosen flags t) := by
  have hchosen : k.chosen flags t = v := by
    rw [Key.chosen, hgiven]
    rfl
  rw [h.exists_load_eq_error_iff]
  constructor
  · rintro ⟨k', hk'⟩
    refine ⟨k', ?_, hk'⟩
    rintro rfl
    rw [hchosen] at hk'
    exact hk' hv
  · rintro ⟨k', -, hk'⟩
    exact ⟨k', hk'⟩

/-- **Each key is decided for itself.** The settings have at every key what the value chosen there
means, and there are none exactly if a chosen value is not of the type of its key. A flag thus decides
over the mode and the interval whatever the file has there, a valid one hides what it replaces, and
another choice at one key changes nothing at the others. -/
theorem load_by_key (h : Reads file t) (flags : Flags) :
    (∀ s, load (file.map some) flags = .ok s ↔ ∀ k : Key, k.Sets s (k.chosen flags t)) ∧
    ((∃ e, load (file.map some) flags = .error e) ↔ ∃ k : Key, ¬ k.Valid (k.chosen flags t)) ∧
    (∀ s, load (file.map some) flags = .ok s →
      (flags.unavailable = true → s.wait.mode = .unavailable) ∧
      ∀ n, flags.intervalMs = some n → s.wait.interval = .ofMillis (min n 9223372036854775807)) ∧
    (∀ (k : Key) (v : Toml), k.given? flags = some v → k.Valid v →
      ((∃ e, load (file.map some) flags = .error e) ↔ ∃ k' : Key, k' ≠ k ∧ ¬ k'.Valid (k'.chosen flags t))) ∧
    ∀ (file' : Option String) (t' : Table) (flags' : Flags), Reads file' t' →
      ((∀ k : Key, k.chosen flags' t' = k.chosen flags t) →
        load (file'.map some) flags' = load (file.map some) flags) ∧
      ∀ (k : Key) (s s' : Settings), k.chosen flags' t' = k.chosen flags t →
        load (file.map some) flags = .ok s → load (file'.map some) flags' = .ok s' → k.Agrees s s' := by
  refine ⟨h.load_eq_ok_iff flags, h.exists_load_eq_error_iff flags, ?_, ?_, ?_⟩
  · intro s hs
    have hsets := (h.load_eq_ok_iff flags s).1 hs
    constructor
    · intro hflag
      have hmode : (Key.chosen flags t .mode).Names s.wait.mode := hsets .mode
      rw [Key.chosen, Key.given?, if_pos hflag] at hmode
      have hname : IsModeName "unavailable" .unavailable := by
        rw [IsModeName]
        decide
      exact hmode.unique (.written (.text "unavailable") hname)
    · intro n hn
      obtain ⟨m, hm, hnanos⟩ := hsets .interval
      rw [Key.chosen, Key.given?, hn] at hm
      rw [hm.unique (.int (min n 9223372036854775807))] at hnanos
      exact congrArg Duration.mk hnanos
  · intro k v hgiven hv
    exact h.exists_load_eq_error_iff_of_given? hgiven hv
  · intro file' t' flags' h'
    constructor
    · intro hchosen
      have hholds := (h'.holds flags').congr hchosen
      rw [h.load_eq, h'.load_eq]
      exact hholds.ofTable_congr (h.holds flags)
    · intro k s s' hchosen hs hs'
      have hsets : k.Sets s (k.chosen flags t) := (h.load_eq_ok_iff flags s).1 hs k
      have hsets' : k.Sets s' (k.chosen flags' t') := (h'.load_eq_ok_iff flags' s').1 hs' k
      rw [hchosen] at hsets'
      exact hsets.agrees hsets'

/-- A file with truth values for the timeout and the mode. -/
def truthFile : String :=
  "[wait]\ninterval_ms = 250\ntimeout = true\nmode = false\n[fleet]\nlast_seen_timeout_secs = 60\n"

/-- The table of the file. -/
def truthTable : Table :=
  [("wait", .table [("interval_ms", .int 250), ("timeout", .bool true), ("mode", .bool false)]),
    ("fleet", .table [("last_seen_timeout_secs", .int 60)])]

theorem reads_truthFile : Reads (some truthFile) truthTable where
  spelt := by
    have h : truthFile.toList =
        ['[', 'w', 'a', 'i', 't', ']', '\n',
          'i', 'n', 't', 'e', 'r', 'v', 'a', 'l', '_', 'm', 's', ' ', '=', ' ', '2', '5', '0', '\n',
          't', 'i', 'm', 'e', 'o', 'u', 't', ' ', '=', ' ', 't', 'r', 'u', 'e', '\n',
          'm', 'o', 'd', 'e', ' ', '=', ' ', 'f', 'a', 'l', 's', 'e', '\n',
          '[', 'f', 'l', 'e', 'e', 't', ']', '\n',
          'l', 'a', 's', 't', '_', 's', 'e', 'e', 'n', '_', 't', 'i', 'm', 'e', 'o', 'u', 't', '_', 's', 'e', 'c',
          's', ' ', '=', ' ', '6', '0', '\n'] := by
      simp [truthFile]
    show Toml.parse? truthFile = some truthTable
    rw [Toml.parse?, h]
    rfl
  gives := by
    refine .of_lower (by decide) fun e he => ?_
    obtain rfl | rfl : e = _ ∨ e = _ := by simpa [truthTable] using he
    · refine ⟨by decide, _, rfl, fun d hd => ?_⟩
      obtain rfl | rfl | rfl : d = _ ∨ d = _ ∨ d = _ := by simpa using hd
      · exact ⟨by decide, trivial⟩
      · exact ⟨by decide, trivial⟩
      · exact ⟨by decide, trivial⟩
    · refine ⟨by decide, _, rfl, fun d hd => ?_⟩
      obtain rfl := List.mem_singleton.1 hd
      exact ⟨by decide, trivial⟩

/-- The flags replace the invalid timeout and the invalid mode, and an interval that is too long counts as
the longest one. Without one of the first two flags there are no settings. -/
theorem load_by_key_masked :
    load (some (some truthFile))
        { timeout := some "10?", intervalMs := some 18446744073709551615, unavailable := true } =
      .ok ⟨⟨.ofMillis 9223372036854775807, ⟨some (.ofSecs 10), false⟩, .unavailable⟩, .v4, .ofSecs 60,
        ⟨"info", "text"⟩⟩ ∧
    (∃ e, load (some (some truthFile)) { unavailable := true } = .error e) ∧
    ∃ e, load (some (some truthFile)) { timeout := some "10?" } = .error e := by
  refine ⟨((load_by_key reads_truthFile _).1 _).2 fun k => ?_,
    (load_by_key reads_truthFile _).2.1.2 ⟨.timeout, ?_⟩, (load_by_key reads_truthFile _).2.1.2 ⟨.mode, ?_⟩⟩
  · cases k with
    | interval => exact ⟨9223372036854775807, asCount?_eq_some_iff.1 (by decide +kernel), by decide⟩
    | timeout =>
      exact ⟨"10?", asText?_eq_some_iff.1 (by decide +kernel), Timeout.parse_eq_ok_iff.1 (by decide +kernel)⟩
    | mode => exact asMode?_eq_some_iff.1 (by decide +kernel)
    | version => exact ⟨"4", asText?_eq_some_iff.1 (by decide +kernel), IpVersion.parse?_eq_some_iff.1 (by decide)⟩
    | lastSeen => exact ⟨60, asCount?_eq_some_iff.1 (by decide +kernel), by decide⟩
    | level => exact asText?_eq_some_iff.1 (by decide +kernel)
    | format => exact asText?_eq_some_iff.1 (by decide +kernel)
  · rintro ⟨text, limit, htext, hlimit⟩
    obtain rfl : text = "true" := htext.unique (asText?_eq_some_iff.1 (by decide +kernel))
    have htrue : (Timeout.parse "true").isOk = false := by decide
    rw [Timeout.parse_eq_ok_iff.2 hlimit] at htrue
    cases htrue
  · rintro ⟨mode, hmode⟩
    have hfalse : asMode? (Key.chosen { timeout := some "10?" } truthTable .mode) = none := by decide +kernel
    rw [asMode?_eq_some_iff.2 hmode] at hfalse
    cases hfalse

end Settings

end SlotQuery
