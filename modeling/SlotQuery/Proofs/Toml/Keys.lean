import SlotQuery.Toml.Parser

/-!
# The keys of a document

No table of a document has two entries under one key, however deep it lies. `Node.Distinct` says so of a
table that still grows. Each statement keeps it (`Branches.update` is the only place where entries are
added), so it holds of all that is read. Main statement: `distinct_of_parse?`.
-/

namespace SlotQuery

namespace Toml

/-- The value is neither a list nor a table. -/
def IsScalar : Toml → Prop
  | list _ | table _ => False
  | text _ | int _ | real _ | bool _ | moment _ => True

/-- The keys of every table in the value are distinct. -/
inductive Distinct : Toml → Prop where
  | scalar {v : Toml} : v.IsScalar → Distinct v
  | list {vs : List Toml} : (∀ v ∈ vs, Distinct v) → Distinct (.list vs)
  | table {t : List (String × Toml)} : (t.map Prod.fst).Nodup → (∀ e ∈ t, Distinct e.2) →
      Distinct (.table t)

/-- The keys of every table under the node are distinct. -/
inductive Node.Distinct : Node → Prop where
  | value {v : Toml} : v.Distinct → Distinct (.value v)
  | table {origin : Origin} {t : Branches} : (t.map Prod.fst).Nodup → (∀ e ∈ t, Distinct e.2) →
      Distinct (.table origin t)
  | tables {closed : List Branches} {last : Branches} :
      (∀ t ∈ closed, (t.map Prod.fst).Nodup) → (∀ t ∈ closed, ∀ e ∈ t, Distinct e.2) →
      (last.map Prod.fst).Nodup → (∀ e ∈ last, Distinct e.2) → Distinct (.tables closed last)

/-! ## Growing tables -/

namespace Branches

variable {key : String} {grow : Option Node → Option Node} {t u : Branches}

/-- The keys of the table, and of every table under it, are distinct. -/
structure Distinct (t : Branches) : Prop where
  keys : (t.map Prod.fst).Nodup
  nodes : ∀ e ∈ t, e.2.Distinct

theorem distinct_nil : Distinct [] := ⟨List.nodup_nil, nofun⟩

theorem distinct_singleton {n : Node} (h : n.Distinct) : Distinct [(key, n)] := by
  refine ⟨by simp, ?_⟩
  intro e he
  obtain rfl := List.mem_singleton.1 he
  exact h

/-- How a table came about does not matter. -/
theorem Distinct.node {origin : Origin} (h : Distinct t) : (Node.table origin t).Distinct :=
  .table h.keys h.nodes

/-- An update adds no key but its own. -/
theorem mem_keys_of_update (h : update t key grow = some u) {k : String} (hk : k ∈ u.map Prod.fst) :
    k = key ∨ k ∈ t.map Prod.fst := by
  induction t generalizing u with
  | nil =>
    obtain ⟨n, -, rfl⟩ := Option.map_eq_some_iff.1 h
    exact .inl (by simpa using hk)
  | cons e es ih =>
    rw [update] at h
    split at h
    · obtain ⟨n, -, rfl⟩ := Option.map_eq_some_iff.1 h
      rcases List.mem_cons.1 hk with rfl | hk
      · exact .inl rfl
      · exact .inr (List.mem_cons_of_mem _ hk)
    · obtain ⟨us, hus, rfl⟩ := Option.map_eq_some_iff.1 h
      rcases List.mem_cons.1 hk with rfl | hk
      · exact .inr List.mem_cons_self
      · exact (ih hus hk).imp id (List.mem_cons_of_mem _)

/-- A change under one key keeps the keys distinct. -/
theorem Distinct.update (ht : Distinct t)
    (hgrow : ∀ n? n, (∀ m ∈ n?, m.Distinct) → grow n? = some n → n.Distinct)
    (h : update t key grow = some u) : Distinct u := by
  induction t generalizing u with
  | nil =>
    obtain ⟨n, hn, rfl⟩ := Option.map_eq_some_iff.1 h
    exact distinct_singleton (hgrow none n nofun hn)
  | cons e es ih =>
    obtain ⟨hkeys, hnodes⟩ := ht
    rw [List.map_cons, List.nodup_cons] at hkeys
    obtain ⟨he, hes⟩ := List.forall_mem_cons.1 hnodes
    rw [Branches.update] at h
    split at h
    · next hkey =>
      obtain ⟨n, hn, rfl⟩ := Option.map_eq_some_iff.1 h
      have hnode : n.Distinct := by
        apply hgrow (some e.2) n _ hn
        intro m hm
        obtain rfl := Option.some.inj hm
        exact he
      refine ⟨?_, List.forall_mem_cons.2 ⟨hnode, hes⟩⟩
      rw [List.map_cons, List.nodup_cons, ← hkey]
      exact hkeys
    · next hkey =>
      obtain ⟨us, hus, rfl⟩ := Option.map_eq_some_iff.1 h
      have hdistinct := ih ⟨hkeys.2, hes⟩ hus
      refine ⟨?_, List.forall_mem_cons.2 ⟨he, hdistinct.nodes⟩⟩
      rw [List.map_cons, List.nodup_cons]
      refine ⟨fun hmem => ?_, hdistinct.keys⟩
      rcases mem_keys_of_update hus hmem with heq | hmem
      · exact hkey heq
      · exact hkeys.1 hmem

/-- What grows at the end of a path grows within its tables. -/
theorem Distinct.within {grow : Branches → Option Branches}
    (hgrow : ∀ t u, Distinct t → grow t = some u → Distinct u) {path : List String}
    (ht : Distinct t) (h : within grow path t = some u) : Distinct u := by
  induction path generalizing t u with
  | nil => exact hgrow t u ht h
  | cons key path ih =>
    apply ht.update _ h
    intro n? n hn? hn
    split at hn
    · obtain ⟨v, hv, rfl⟩ := Option.map_eq_some_iff.1 hn
      exact (ih distinct_nil hv).node
    · obtain ⟨v, hv, rfl⟩ := Option.map_eq_some_iff.1 hn
      cases hn? _ rfl with
      | table hkeys hnodes => exact (ih ⟨hkeys, hnodes⟩ hv).node
    · obtain ⟨v, hv, rfl⟩ := Option.map_eq_some_iff.1 hn
      cases hn? _ rfl with
      | tables hclosed hclosed' hkeys hnodes =>
        have hlast := ih ⟨hkeys, hnodes⟩ hv
        exact .tables hclosed hclosed' hlast.keys hlast.nodes
    · cases hn

/-- Opening a table by its header keeps keys distinct. -/
theorem Distinct.openTable (ht : Distinct t) (h : openTable key t = some u) : Distinct u := by
  apply ht.update _ h
  intro n? n hn? hn
  split at hn
  · cases hn
    exact distinct_nil.node
  · cases hn
    cases hn? _ rfl with
    | table hkeys hnodes => exact .table hkeys hnodes
  · cases hn

/-- One more table in a list of tables keeps keys distinct. -/
theorem Distinct.addTable (ht : Distinct t) (h : addTable key t = some u) : Distinct u := by
  apply ht.update _ h
  intro n? n hn? hn
  split at hn
  · cases hn
    exact .tables nofun nofun List.nodup_nil nofun
  · next closed last =>
    cases hn
    cases hn? _ rfl with
    | tables hclosed hclosed' hkeys hnodes =>
      refine .tables ?_ ?_ List.nodup_nil nofun
      · intro t ht
        rcases List.mem_append.1 ht with ht | ht
        · exact hclosed t ht
        · obtain rfl := List.mem_singleton.1 ht
          exact hkeys
      · intro t ht
        rcases List.mem_append.1 ht with ht | ht
        · exact hclosed' t ht
        · obtain rfl := List.mem_singleton.1 ht
          exact hnodes
  · cases hn

/-- A value under a path of keys keeps keys distinct. -/
theorem Distinct.addValue {v : Toml} (hv : v.Distinct) {parents : List String} (ht : Distinct t)
    (h : addValue key v parents t = some u) : Distinct u := by
  have hvalue : (Node.value v).Distinct := .value hv
  -- the last table in front of the key has a rule of its own
  fun_induction Branches.addValue key v parents t generalizing u with
  | case1 t =>
    apply ht.update _ h
    intro n? n hn? hn
    split at hn
    · cases hn
      exact hvalue
    · cases hn
  | case2 parent t ih =>
    apply ht.update _ h
    intro n? n hn? hn
    split at hn
    · cases hn
      exact (distinct_singleton hvalue).node
    · obtain ⟨w, hw, rfl⟩ := Option.map_eq_some_iff.1 hn
      cases hn? _ rfl with
      | table hkeys hnodes => exact (ih _ ⟨hkeys, hnodes⟩ hw).node
    · cases hn
  | case3 parent parents t _ ihnew ih =>
    apply ht.update _ h
    intro n? n hn? hn
    split at hn
    · obtain ⟨w, hw, rfl⟩ := Option.map_eq_some_iff.1 hn
      exact (ihnew distinct_nil hw).node
    · cases hn
    · obtain ⟨w, hw, rfl⟩ := Option.map_eq_some_iff.1 hn
      cases hn? _ rfl with
      | table hkeys hnodes => exact (ih _ ⟨hkeys, hnodes⟩ hw).node
    · obtain ⟨w, hw, rfl⟩ := Option.map_eq_some_iff.1 hn
      cases hn? _ rfl with
      | tables hclosed hclosed' hkeys hnodes =>
        have hlast := ih _ ⟨hkeys, hnodes⟩ hw
        exact .tables hclosed hclosed' hlast.keys hlast.nodes
    · cases hn

end Branches

/-! ## Finished tables -/

/-- The entries of a table have the keys of its branches, with the values that these stand for. -/
theorem entries_eq_map (t : Branches) : entries t = t.map fun e => (e.1, e.2.toToml) := by
  induction t with
  | nil => rfl
  | cons e es ih => rw [entries, ih, List.map_cons]

theorem tables_eq_map (ts : List Branches) : tables ts = ts.map fun t => .table (entries t) := by
  induction ts with
  | nil => rfl
  | cons t ts ih => rw [tables, ih, List.map_cons]

theorem keys_entries (t : Branches) : (entries t).map Prod.fst = t.map Prod.fst := by
  rw [entries_eq_map, List.map_map]
  rfl

theorem distinct_entries {t : Branches} (hkeys : (t.map Prod.fst).Nodup)
    (hnodes : ∀ e ∈ t, e.2.toToml.Distinct) : (Toml.table (entries t)).Distinct := by
  refine .table (by rwa [keys_entries]) ?_
  rw [entries_eq_map]
  intro e he
  obtain ⟨d, hd, rfl⟩ := List.mem_map.1 he
  exact hnodes d hd

/-- Distinct keys stay so in the value. -/
theorem Node.Distinct.toToml {n : Node} (h : n.Distinct) : n.toToml.Distinct := by
  induction h with
  | value hv => exact hv
  | table hkeys _ ih => exact distinct_entries hkeys ih
  | tables hclosed _ hkeys _ ihclosed ih =>
    refine .list fun v hv => ?_
    rw [tables_eq_map] at hv
    rcases List.mem_append.1 hv with hv | hv
    · obtain ⟨t, ht, rfl⟩ := List.mem_map.1 hv
      exact distinct_entries (hclosed t ht) (ihclosed t ht)
    · obtain rfl := List.mem_singleton.1 hv
      exact distinct_entries hkeys ih

theorem Branches.Distinct.entries {t : Branches} (h : t.Distinct) :
    (Toml.table (entries t)).Distinct :=
  distinct_entries h.keys fun e he => (h.nodes e he).toToml

/-! ## Values -/

theorem isScalar_of_int64? {n : Int} {v : Toml} (h : int64? n = some v) : v.IsScalar := by
  unfold int64? at h
  split at h
  · cases h
    trivial
  · cases h

theorem isScalar_of_based? {base : Nat} {cs : List Char} {v : Toml} (h : based? base cs = some v) :
    v.IsScalar := by
  obtain ⟨ds, -, h⟩ := Option.bind_eq_some_iff.1 h
  obtain ⟨n, -, h⟩ := Option.bind_eq_some_iff.1 h
  exact isScalar_of_int64? h

theorem isScalar_of_integer? {cs : List Char} {v : Toml} (h : integer? cs = some v) :
    v.IsScalar := by
  unfold integer? at h
  split at h
  · exact isScalar_of_based? h
  · exact isScalar_of_based? h
  · exact isScalar_of_based? h
  · obtain ⟨ds, -, h⟩ := Option.bind_eq_some_iff.1 h
    exact isScalar_of_int64? h

/-- What is written without quotes is no list and no table. -/
theorem isScalar_of_unquoted? {cs : List Char} {v : Toml} (h : unquoted? cs = some v) :
    v.IsScalar := by
  unfold unquoted? at h
  split at h
  · cases h
    trivial
  · cases h
    trivial
  · simp only [Option.orElse_eq_orElse, Option.orElse_eq_or, Option.or_eq_some_iff] at h
    rcases h with h | ⟨-, h | ⟨-, h⟩⟩
    · exact isScalar_of_integer? h
    · obtain ⟨x, -, rfl⟩ := Option.map_eq_some_iff.1 h
      trivial
    · obtain ⟨m, -, rfl⟩ := Option.map_eq_some_iff.1 h
      trivial

theorem isScalar_of_scalar? {cs rest : List Char} {v : Toml} (h : scalar? cs = some (v, rest)) :
    v.IsScalar := by
  unfold scalar? at h
  obtain ⟨w, hw, heq⟩ := Option.map_eq_some_iff.1 h
  obtain ⟨rfl, -⟩ := Prod.mk.inj heq
  exact isScalar_of_unquoted? hw

/-- Values, lists and tables on one line that are read within `fuel` steps have distinct keys. -/
structure ReadsDistinct (fuel : Nat) : Prop where
  value : ∀ cs v rest, value? fuel cs = some (v, rest) → v.Distinct
  items : ∀ cs vs rest, items? fuel cs = some (vs, rest) → ∀ v ∈ vs, v.Distinct
  members : ∀ t cs u rest, t.Distinct → members? fuel t cs = some (u, rest) → u.Distinct

namespace ReadsDistinct

variable {fuel : Nat} {cs rest : List Char}

/-- A value is read by one more step, from parts that are read by fewer. -/
theorem value_succ (ih : ReadsDistinct fuel) {v : Toml} (h : value? (fuel + 1) cs = some (v, rest)) :
    v.Distinct := by
  unfold value? at h
  split at h
  · obtain ⟨⟨vs, rest'⟩, hvs, heq⟩ := Option.map_eq_some_iff.1 h
    cases heq
    exact .list (ih.items _ _ _ hvs)
  · split at h
    · cases h
      exact .table List.nodup_nil nofun
    · obtain ⟨⟨u, rest'⟩, hu, heq⟩ := Option.map_eq_some_iff.1 h
      cases heq
      exact (ih.members _ _ _ _ Branches.distinct_nil hu).entries
  · split at h
    · obtain ⟨⟨s, rest'⟩, -, heq⟩ := Option.map_eq_some_iff.1 h
      cases heq
      exact .scalar trivial
    · obtain ⟨⟨s, rest'⟩, -, heq⟩ := Option.map_eq_some_iff.1 h
      cases heq
      exact .scalar trivial
    · exact .scalar (isScalar_of_scalar? h)

theorem items_succ (ih : ReadsDistinct fuel) {vs : List Toml}
    (h : items? (fuel + 1) cs = some (vs, rest)) : ∀ v ∈ vs, v.Distinct := by
  unfold items? at h
  split at h
  · cases h
    nofun
  · obtain ⟨⟨v, rest'⟩, hv, h⟩ := Option.bind_eq_some_iff.1 h
    have hv := ih.value _ _ _ hv
    dsimp only at h
    split at h
    · obtain ⟨⟨vs', rest''⟩, hvs, heq⟩ := Option.bind_eq_some_iff.1 h
      cases heq
      exact List.forall_mem_cons.2 ⟨hv, ih.items _ _ _ hvs⟩
    · cases h
      simpa using hv
    · cases h

theorem members_succ (ih : ReadsDistinct fuel) {t u : Branches} (ht : t.Distinct)
    (h : members? (fuel + 1) t cs = some (u, rest)) : u.Distinct := by
  unfold members? at h
  obtain ⟨⟨⟨parents, key⟩, rest₁⟩, -, h⟩ := Option.bind_eq_some_iff.1 h
  obtain ⟨rest₂, -, h⟩ := Option.bind_eq_some_iff.1 h
  obtain ⟨⟨v, rest₃⟩, hv, h⟩ := Option.bind_eq_some_iff.1 h
  obtain ⟨t', ht', h⟩ := Option.bind_eq_some_iff.1 h
  have hgrown := ht.addValue (ih.value _ _ _ hv) ht'
  split at h
  · exact ih.members _ _ _ _ hgrown h
  · cases h
    exact hgrown
  · cases h

end ReadsDistinct

/-- Whatever the bound on the steps, tables on one line have distinct keys. -/
theorem readsDistinct (fuel : Nat) : ReadsDistinct fuel := by
  induction fuel with
  | zero => exact ⟨nofun, nofun, nofun⟩
  | succ fuel ih =>
    exact ⟨fun _ _ _ => ih.value_succ, fun _ _ _ => ih.items_succ, fun _ _ _ _ => ih.members_succ⟩

/-! ## Statements -/

/-- The values that the statement adds have distinct keys. -/
def Statement.Distinct : Statement → Prop
  | .entry _ _ v => v.Distinct
  | .header _ _ | .listHeader _ _ => True

theorem distinct_of_statement? {cs rest : List Char} {s : Statement}
    (h : statement? cs = some (s, rest)) : s.Distinct := by
  unfold statement? at h
  split at h
  · obtain ⟨⟨⟨parents, key⟩, rest₁⟩, -, h⟩ := Option.bind_eq_some_iff.1 h
    obtain ⟨rest₂, -, h⟩ := Option.bind_eq_some_iff.1 h
    obtain ⟨rest₃, -, h⟩ := Option.bind_eq_some_iff.1 h
    cases h
    trivial
  · obtain ⟨⟨⟨parents, key⟩, rest₁⟩, -, h⟩ := Option.bind_eq_some_iff.1 h
    obtain ⟨rest₂, -, h⟩ := Option.bind_eq_some_iff.1 h
    cases h
    trivial
  · obtain ⟨⟨⟨parents, key⟩, rest₁⟩, -, h⟩ := Option.bind_eq_some_iff.1 h
    obtain ⟨rest₂, -, h⟩ := Option.bind_eq_some_iff.1 h
    obtain ⟨⟨v, rest₃⟩, hv, h⟩ := Option.bind_eq_some_iff.1 h
    cases h
    exact (readsDistinct _).value _ _ _ hv

/-- All values that a document gives have distinct keys; they meet in one table only after that. -/
theorem distinct_of_statements? {n : Nat} {cs : List Char} {ss : List Statement}
    (h : statements? n cs = some ss) : ∀ s ∈ ss, s.Distinct := by
  induction n generalizing cs ss with
  | zero => cases h
  | succ n ih =>
    rw [statements?] at h
    split at h
    · cases h
      nofun
    · obtain ⟨⟨s, rest⟩, hs, h⟩ := Option.bind_eq_some_iff.1 h
      obtain ⟨rest', -, h⟩ := Option.bind_eq_some_iff.1 h
      obtain ⟨ss', hss, h⟩ := Option.bind_eq_some_iff.1 h
      cases h
      exact List.forall_mem_cons.2 ⟨distinct_of_statement? hs, ih hss⟩

/-- Every statement keeps the keys distinct, whichever table it adds to. -/
theorem Branches.Distinct.grow? {path : List String} {t u : Branches} {ss : List Statement}
    (ht : t.Distinct) (hss : ∀ s ∈ ss, s.Distinct) (h : grow? path t ss = some u) : u.Distinct := by
  induction ss generalizing path t with
  | nil =>
    cases h
    exact ht
  | cons s ss ih =>
    obtain ⟨hs, hrest⟩ := List.forall_mem_cons.1 hss
    cases s with
    | header parents key =>
      obtain ⟨t', ht', h⟩ := Option.bind_eq_some_iff.1 h
      exact ih (ht.within (fun _ _ => Distinct.openTable) ht') hrest h
    | listHeader parents key =>
      obtain ⟨t', ht', h⟩ := Option.bind_eq_some_iff.1 h
      exact ih (ht.within (fun _ _ => Distinct.addTable) ht') hrest h
    | entry parents key v =>
      obtain ⟨t', ht', h⟩ := Option.bind_eq_some_iff.1 h
      exact ih (ht.within (fun _ _ => Distinct.addValue hs) ht') hrest h

/-- In a document that is read all keys of a table are distinct. -/
theorem distinct_of_parse? {text : String} {t : List (String × Toml)} (h : parse? text = some t) :
    (Toml.table t).Distinct := by
  unfold parse? at h
  obtain ⟨ss, hss, h⟩ := Option.bind_eq_some_iff.1 h
  obtain ⟨u, hu, h⟩ := Option.bind_eq_some_iff.1 h
  cases h
  exact (Branches.distinct_nil.grow? (distinct_of_statements? hss) hu).entries

end Toml

end SlotQuery
