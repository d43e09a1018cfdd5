import SlotQuery.Proofs.Settings.Values
import SlotQuery.Proofs.Toml.Keys
import SlotQuery.Proofs.Wait.TimeoutText
import SlotQuery.Settings.Layers

/-!
# Tables of settings key by key

A `Key` is one setting: a name in a section. What counts at it is the value that a flag gives, else the
one in the file, else the one built in (`Key.chosen`). `Holds` says of a table that it has a given value
at every key. The defaults do so, a file laid over them and a flag set in them keep it, and each changes
no value but those that it gives. Main statement: `holds_chosen`.
-/

namespace SlotQuery

open Text Toml

namespace Settings

/-! ## Keys -/

/-- What is set. -/
inductive Key where
  | interval
  | timeout
  | mode
  | version
  | lastSeen
  | level
  | format
deriving DecidableEq

namespace Key

/-- The section of the key. -/
def table : Key → String
  | interval | timeout | mode => "wait"
  | version | lastSeen => "fleet"
  | level | format => "logging"

/-- The name of the key in its section. -/
def name : Key → String
  | interval => "interval_ms"
  | timeout => "timeout"
  | mode => "mode"
  | version => "ip_version"
  | lastSeen => "last_seen_timeout_secs"
  | level => "level"
  | format => "format"

/-- The value of the key where nothing sets it. -/
def builtIn : Key → Toml
  | interval => .int 3000
  | timeout => .text "0"
  | mode => .text "available"
  | version => .text "4"
  | lastSeen => .int 300
  | level => .text "info"
  | format => .text "text"

/-- The value that a flag gives. An interval that is no integer of 64 bits counts as the greatest one. -/
def given? (flags : Flags) : Key → Option Toml
  | interval => flags.intervalMs.map fun n : ℕ => .int ↑(min n 9223372036854775807)
  | timeout => flags.timeout.map .text
  | mode => if flags.unavailable then some (.text "unavailable") else none
  | version => flags.version.map .text
  | lastSeen | level | format => none

/-- The value that a table has under the key in its section. -/
def written? (t : Table) (k : Key) : Option Toml := (Table.ofValue? (t.get? k.table)).get? k.name

/-- The value of the flag if that is given, else the one in the file if it is there, else the one built
in. -/
def chosen (flags : Flags) (file : Table) (k : Key) : Toml :=
  ((k.given? flags).or (k.written? file)).getD k.builtIn

/-- The settings have at the key what the value means. -/
def Sets (s : Settings) (v : Toml) : Key → Prop
  | interval => ∃ n, v.Counts n ∧ s.wait.interval.nanos = n * 1000000
  | timeout => ∃ text, v.Spells text ∧ s.wait.timeout.IsText text
  | mode => v.Names s.wait.mode
  | version => ∃ text, v.Spells text ∧ IsVersionText text s.version
  | lastSeen => ∃ n, v.Counts n ∧ s.lastSeen.nanos = n * 1000000000
  | level => v.Spells s.logging.level
  | format => v.Spells s.logging.format

/-- The value is of the type of the key. -/
def Valid (v : Toml) : Key → Prop
  | interval | lastSeen => ∃ n, v.Counts n
  | timeout => ∃ text, ∃ limit : Timeout, v.Spells text ∧ limit.IsText text
  | mode => ∃ m, v.Names m
  | version => ∃ text version, v.Spells text ∧ IsVersionText text version
  | level | format => ∃ text, v.Spells text

/-- The two settings are the same at the key. -/
def Agrees (s s' : Settings) : Key → Prop
  | interval => s.wait.interval = s'.wait.interval
  | timeout => s.wait.timeout = s'.wait.timeout
  | mode => s.wait.mode = s'.wait.mode
  | version => s.version = s'.version
  | lastSeen => s.lastSeen = s'.lastSeen
  | level => s.logging.level = s'.logging.level
  | format => s.logging.format = s'.logging.format

theorem name_injective {k k' : Key} (h : k.name = k'.name) : k = k' := by
  revert h
  cases k <;> cases k' <;> decide

@[simp] theorem lower_table (k : Key) : lower k.table = k.table := by cases k <;> decide

@[simp] theorem lower_name (k : Key) : lower k.name = k.name := by cases k <;> decide

theorem point_notMem_table (k : Key) : '.' ∉ k.table.toList := by cases k <;> decide

end Key

/-! ## Laying tables over each other -/

variable {t es : Table} {key : String} {v : Toml}

theorem laidOver_of_isScalar (h : v.IsScalar) (old : Option Toml) : laidOver old v = v := by
  cases v with
  | table => exact absurd h id
  | _ => rfl

theorem laidOver_table (u es : Table) : laidOver (some (.table u)) (.table es) = .table (overlay u es) := by
  cases es with
  | nil => rw [laidOver, overlay, Option.getD_some]
  | cons e es => rw [laidOver, Table.ofValue?]

theorem Table.get?_cons (e : String × Toml) (es : Table) (key : String) :
    Table.get? (e :: es) key = if e.1 = key then some e.2 else Table.get? es key := by
  rw [Table.get?, List.lookup_cons]
  by_cases h : e.1 = key
  · rw [if_pos h, h, beq_self_eq_true]
  · rw [if_neg h, beq_false_of_ne (Ne.symm h)]
    rfl

theorem Table.mem_of_get? (h : t.get? key = some v) : (key, v) ∈ t := by
  induction t with
  | nil => cases h
  | cons e es ih =>
    rw [Table.get?_cons] at h
    split at h
    · next heq =>
      obtain rfl := Option.some.inj h
      exact heq ▸ List.mem_cons_self
    · exact List.mem_cons_of_mem _ (ih h)

theorem Table.get?_eq_none (h : key ∉ t.map Prod.fst) : t.get? key = none := by
  cases hv : t.get? key with
  | none => rfl
  | some v => exact absurd (List.mem_map_of_mem (Table.mem_of_get? hv)) h

/-- Entries with distinct keys, of which none is another spelling of the key, change at most the value
under the key. -/
theorem get?_overlay (hlower : lower key = key) (hkeys : (es.map Prod.fst).Nodup)
    (hspelt : ∀ e ∈ es, lower e.1 = key → e.1 = key) (t : Table) :
    (overlay t es).get? key =
      ((es.get? key).map (laidOver (t.get? key))).or (t.get? key) := by
  induction es generalizing t with
  | nil => rw [overlay, Table.get?_nil, Option.map_none, Option.none_or]
  | cons e es ih =>
    rw [List.map_cons, List.nodup_cons] at hkeys
    obtain ⟨he, hes⟩ := List.forall_mem_cons.1 hspelt
    rw [overlay, ih hkeys.2 hes, Table.get?_cons, Table.get?_put]
    by_cases heq : e.1 = key
    · have hnone : Table.get? es key = none := Table.get?_eq_none (heq ▸ hkeys.1)
      rw [hnone, if_pos heq, heq, hlower, if_pos rfl]
      rfl
    · have hne : key ≠ lower e.1 := fun h => heq (he h.symm)
      rw [if_neg heq, if_neg hne]

/-! ## What a file gives -/

/-- The table gives what it gives of the keys as scalars within sections. Known names stand there in
lower case only, and no name at the top reads as a path; there may be other keys. -/
structure GivesScalars (t : Table) : Prop where
  no_path : ∀ e ∈ t, '.' ∉ e.1.toList
  sections : ∀ e ∈ t, ∀ k : Key, lower e.1 = k.table → e.1 = k.table ∧ ∃ u, e.2 = .table u ∧
    ∀ d ∈ u, ∀ k' : Key, k'.table = k.table → lower d.1 = k'.name → d.1 = k'.name ∧ d.2.IsScalar

/-- Sections of scalars whose names are in lower case give scalars. -/
theorem GivesScalars.of_lower (hpath : ∀ e ∈ t, '.' ∉ e.1.toList)
    (h : ∀ e ∈ t, lower e.1 = e.1 ∧ ∃ u, e.2 = .table u ∧ ∀ d ∈ u, lower d.1 = d.1 ∧ d.2.IsScalar) :
    GivesScalars t where
  no_path := hpath
  sections e he k hk := by
    obtain ⟨hlower, u, hu, hus⟩ := h e he
    rw [hlower] at hk
    refine ⟨hk, u, hu, fun d hd k' _ hname => ?_⟩
    obtain ⟨hlower, hscalar⟩ := hus d hd
    rw [hlower] at hname
    exact ⟨hname, hscalar⟩

theorem spread_eq_self (h : ∀ e ∈ t, '.' ∉ e.1.toList) : spread t = t := by
  have hpath (text : String) (htext : '.' ∉ text.toList) : (path? text).getD [text] = [text] := by
    rw [path?, List.splitOn_eq_singleton htext]
    split
    · rw [Option.getD_some, List.map_singleton, String.ofList_toList]
    · rfl
  induction t with
  | nil => rfl
  | cons e es ih =>
    obtain ⟨he, hes⟩ := List.forall_mem_cons.1 h
    have hrest := ih hes
    rw [spread] at hrest ⊢
    rw [List.flatMap_cons, hrest, hpath e.1 he]
    rfl

/-- Every key has its value in its section of the table. -/
def Holds (t : Table) (c : Key → Toml) : Prop :=
  ∀ k, ∃ u : Table, t.get? k.table = some (.table u) ∧ u.get? k.name = some (c k)

variable {c : Key → Toml}

theorem holds_defaults : Holds defaults Key.builtIn := by
  intro k
  cases k <;> exact ⟨_, rfl, rfl⟩

/-- A file laid over a table with all keys replaces the values that it gives. -/
theorem Holds.overlay (h : Holds t c) (hes : (Toml.table es).Distinct) (hgives : GivesScalars es) :
    Holds (overlay t es) fun k => (k.written? es).getD (c k) := by
  intro k
  obtain ⟨u, hu, huk⟩ := h k
  obtain ⟨hkeys, hvalues⟩ : (es.map Prod.fst).Nodup ∧ ∀ e ∈ es, e.2.Distinct := by
    cases hes with
    | scalar h => exact absurd h id
    | table hkeys hvalues => exact ⟨hkeys, hvalues⟩
  have hspelt : ∀ e ∈ es, lower e.1 = k.table → e.1 = k.table := fun e he heq =>
    (hgives.sections e he k heq).1
  simp only [get?_overlay k.lower_table hkeys hspelt, hu, Key.written?]
  cases hsection : Table.get? es k.table with
  | none => exact ⟨u, rfl, huk⟩
  | some v =>
    have hmem := Table.mem_of_get? hsection
    obtain ⟨-, us, hus, hscalars⟩ := hgives.sections _ hmem k k.lower_table
    obtain rfl : v = .table us := hus
    have husKeys : (us.map Prod.fst).Nodup := by
      cases hvalues _ hmem with
      | scalar h => exact absurd h id
      | table hkeys _ => exact hkeys
    have hnames : ∀ d ∈ us, lower d.1 = k.name → d.1 = k.name := fun d hd heq =>
      (hscalars d hd k rfl heq).1
    refine ⟨Settings.overlay u us, ?_, ?_⟩
    · rw [Option.map_some, laidOver_table, Option.some_or]
    · rw [get?_overlay k.lower_name husKeys hnames, huk, Table.ofValue?]
      cases hvalue : Table.get? us k.name with
      | none => rfl
      | some w =>
        have hscalar := (hscalars _ (Table.mem_of_get? hvalue) k rfl k.lower_name).2
        rw [Option.map_some, laidOver_of_isScalar hscalar]
        rfl

/-! ## What flags give -/

theorem Holds.congr {c' : Key → Toml} (h : Holds t c) (heq : ∀ k, c k = c' k) : Holds t c' :=
  funext heq ▸ h

theorem distinct_single (k : Key) (hv : v.IsScalar) :
    (Toml.table [(k.table, .table [(k.name, v)])]).Distinct := by
  refine .table (by simp) fun e he => ?_
  obtain rfl := List.mem_singleton.1 he
  refine .table (by simp) fun d hd => ?_
  obtain rfl := List.mem_singleton.1 hd
  exact .scalar hv

theorem givesScalars_single (k : Key) (hv : v.IsScalar) :
    GivesScalars [(k.table, .table [(k.name, v)])] where
  no_path e he := by
    obtain rfl := List.mem_singleton.1 he
    exact k.point_notMem_table
  sections e he k' hk' := by
    obtain rfl := List.mem_singleton.1 he
    rw [Key.lower_table] at hk'
    refine ⟨hk', _, rfl, fun d hd k'' _ hk'' => ?_⟩
    obtain rfl := List.mem_singleton.1 hd
    rw [Key.lower_name] at hk''
    exact ⟨hk'', hv⟩

theorem written?_single (k k' : Key) (v : Toml) :
    k'.written? [(k.table, .table [(k.name, v)])] = if k' = k then some v else none := by
  simp only [Key.written?, Table.get?_cons, Table.get?_nil]
  by_cases heq : k' = k
  · rw [heq, if_pos rfl, if_pos rfl, Table.ofValue?, Table.get?_cons, if_pos rfl]
  · have hname : k.name ≠ k'.name := fun h => heq (Key.name_injective h.symm)
    rw [if_neg heq]
    split
    · rw [Table.ofValue?, Table.get?_cons, if_neg hname, Table.get?_nil]
    · rfl

/-- A value set at a key replaces the one there and no other. -/
theorem Holds.set (h : Holds t c) (k : Key) (hv : v.IsScalar) :
    Holds (set t [k.table, k.name] v) fun k' => if k' = k then v else c k' := by
  refine (h.overlay (distinct_single k hv) (givesScalars_single k hv)).congr fun k' => ?_
  rw [written?_single]
  split <;> rfl

/-- Values set at keys one after the other. -/
theorem Holds.setAll {given? : Key → Option Toml} (hscalar : ∀ k v, given? k = some v → v.IsScalar)
    (ks : List Key) (h : Holds t c) :
    Holds (setAll t (ks.filterMap fun k => (given? k).map fun v => ([k.table, k.name], v)))
      fun k => if k ∈ ks then (given? k).getD (c k) else c k := by
  induction ks generalizing t c with
  | nil => exact h
  | cons k ks ih =>
    cases hk : given? k with
    | none =>
      rw [List.filterMap_cons_none (by rw [hk]; rfl)]
      refine (ih h).congr fun k' => ?_
      by_cases heq : k' = k
      · simp [heq, hk]
      · simp [heq]
    | some v =>
      rw [List.filterMap_cons_some (by rw [hk]; rfl)]
      refine (ih (h.set k (hscalar k v hk))).congr fun k' => ?_
      by_cases heq : k' = k
      · simp [heq, hk]
      · simp [heq]

theorem isScalar_of_given? {flags : Flags} {k : Key} (h : k.given? flags = some v) : v.IsScalar := by
  cases k with
  | interval =>
    obtain ⟨n, -, rfl⟩ := Option.map_eq_some_iff.1 h
    trivial
  | timeout | version =>
    obtain ⟨text, -, rfl⟩ := Option.map_eq_some_iff.1 h
    trivial
  | mode =>
    rw [Key.given?] at h
    split at h
    · cases h
      trivial
    · cases h
  | lastSeen | level | format => cases h

/-- The keys that have flags. -/
def flagKeys : List Key := [.timeout, .interval, .mode, .version]

theorem values_eq (flags : Flags) :
    flags.values = flagKeys.filterMap fun k =>
      (k.given? flags).map fun v => ([k.table, k.name], v) := by
  have hmax (n : ℕ) : min (n : ℤ) Flags.maxInteger = ↑(min n 9223372036854775807) := by
    rw [Nat.cast_min]
    rfl
  obtain ⟨timeout, intervalMs, unavailable, version⟩ := flags
  simp only [Flags.values, hmax]
  cases timeout <;> cases intervalMs <;> cases unavailable <;> cases version <;> rfl

theorem given?_eq_none {k : Key} (h : k ∉ flagKeys) (flags : Flags) : k.given? flags = none := by
  cases k with
  | interval | timeout | mode | version => exact absurd (by decide) h
  | lastSeen | level | format => rfl

/-- The table of the defaults, a file and flags has the chosen value at every key. -/
theorem holds_chosen (flags : Flags) (hes : (Toml.table es).Distinct) (hgives : GivesScalars es) :
    Holds (setAll (overlay defaults es) flags.values) (Key.chosen flags es) := by
  have hfile := holds_defaults.overlay hes hgives
  have hscalar (k : Key) (v : Toml) (h : k.given? flags = some v) : v.IsScalar :=
    isScalar_of_given? h
  have hflags := hfile.setAll hscalar flagKeys
  rw [values_eq flags]
  refine hflags.congr fun k => ?_
  rw [Key.chosen]
  by_cases hk : k ∈ flagKeys
  · rw [if_pos hk]
    cases k.given? flags <;> rfl
  · rw [if_neg hk, given?_eq_none hk]
    rfl

end Settings

end SlotQuery
