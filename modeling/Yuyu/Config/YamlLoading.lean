import Yuyu.Config.Yaml

/-!
# Loading a configuration

`ListAllMember` and `Config::LoadFromYaml` of `yuyu/config.cc`. All nodes are listed with their
dotted paths, and each is given to the variable of that name. An inner node is converted as text, in
which the entries of maps stand in their order.
-/

namespace Yuyu.Config

open Foundation DocumentTree Function
open Http (Bytes ascii toLower)

def validName (name : Bytes) : Bool :=
  name.all fun c => (ascii "abcdefghikjlmnopqrstuvwxyz._012345678").contains c

/-- `it->first.Scalar()`, which is empty for a key that is not a scalar. -/
def keyText : Document → Bytes
  | .scalar text => text
  | _ => []

def childPath (path : Bytes) (key : Document) : Bytes :=
  if path = [] then keyText key else path ++ ascii "." ++ keyText key

mutual

def listAllMember (path : Bytes) : Document → List (Bytes × Document)
  | .map entries =>
    if validName path then (path, .map entries) :: listEntries path entries else []
  | .null => if validName path then [(path, .null)] else []
  | .scalar text => if validName path then [(path, .scalar text)] else []
  | .sequence items => if validName path then [(path, .sequence items)] else []

def listEntries (path : Bytes) : List (Document × Document) → List (Bytes × Document)
  | [] => []
  | (k, v) :: entries => listAllMember (childPath path k) v ++ listEntries path entries

end

/-- `ConfigVar<T>`: the conversion, which may throw, and `operator==` of `T`. -/
structure Variable (T : Type) where
  fromStr : Bytes → Option T
  eq : T → T → Bool

def Variable.fromString {T : Type} (var : Variable T) (text : Bytes) (val : T) : T :=
  match var.fromStr text with
  | none => val
  | some v => if var.eq v val then val else v

/-- The text that a variable is given: the scalar, or `ss << node`. -/
def nodeText (print : Document → Bytes) : Document → Bytes
  | .scalar text => text
  | node => print node

section Load

variable {T : Bytes → Type} (vars : (name : Bytes) → Option (Variable (T name)))
  (print : Document → Bytes)

/-- One round of the loop of `LoadFromYaml`: the variable whose name is the path in lower case is
set, if there is one. -/
def loadOne (vals : (name : Bytes) → T name) (e : Bytes × Document) (name : Bytes) : T name :=
  if e.1 = [] ∨ name ≠ e.1.map toLower then vals name
  else
    match vars name with
    | none => vals name
    | some var => var.fromString (nodeText print e.2) (vals name)

def loadFromYaml (root : Document) (vals : (name : Bytes) → T name) : (name : Bytes) → T name :=
  (listAllMember [] root).foldl (loadOne vars print) vals

end Load

/-- The node `m` is found under the path, below names that are accepted. -/
inductive Occurs : Bytes → Document → Bytes → Document → Prop
  | here {path : Bytes} {n : Document} (hvalid : validName path = true) : Occurs path n path n
  | inside {path target : Bytes} {entries : Entries} {k v m : Document}
      (hvalid : validName path = true) (hmem : (k, v) ∈ entries)
      (h : Occurs (childPath path k) v target m) : Occurs path (.map entries) target m

section Paths

variable {path target : Bytes} {m n n' : Document}

lemma listEntries_eq (path : Bytes) (entries : Entries) :
    listEntries path entries = entries.flatMap fun e => listAllMember (childPath path e.1) e.2 := by
  induction entries with
  | nil => rfl
  | cons e entries ih => rw [listEntries, ih, List.flatMap_cons]

lemma listAllMember_map (path : Bytes) (entries : Entries) :
    listAllMember path (.map entries) =
      if validName path then (path, .map entries) :: listEntries path entries else [] := by
  rw [listAllMember]

mutual

lemma occurs_of_mem : ∀ (n : Document) {path : Bytes},
    (target, m) ∈ listAllMember path n → Occurs path n target m
  | .map entries, path, h => by
      rw [listAllMember_map] at h
      split at h
      · rename_i hvalid
        rcases List.mem_cons.mp h with heq | h
        · cases heq
          exact .here hvalid
        · obtain ⟨k, v, hmem, hbelow⟩ := occurs_of_mem_entries entries h
          exact .inside hvalid hmem hbelow
      · cases h
  | .null, path, h | .scalar text, path, h | .sequence items, path, h => by
      rw [listAllMember] at h
      split at h
      · rename_i hvalid
        cases List.mem_singleton.mp h
        exact .here hvalid
      · cases h

lemma occurs_of_mem_entries : ∀ (entries : List (Document × Document)) {path : Bytes},
    (target, m) ∈ listEntries path entries →
      ∃ k v, (k, v) ∈ entries ∧ Occurs (childPath path k) v target m
  | [], path, h => by cases h
  | (k, v) :: entries, path, h => by
      rw [listEntries, List.mem_append] at h
      rcases h with h | h
      · exact ⟨k, v, List.mem_cons_self, occurs_of_mem v h⟩
      · obtain ⟨k', v', hmem, hbelow⟩ := occurs_of_mem_entries entries h
        exact ⟨k', v', List.mem_cons_of_mem _ hmem, hbelow⟩

end

lemma mem_listAllMember_iff : (target, m) ∈ listAllMember path n ↔ Occurs path n target m := by
  refine ⟨occurs_of_mem n, fun h => ?_⟩
  induction h with
  | @here path n hvalid => cases n <;> simp [listAllMember, hvalid]
  | @inside path target entries k v m hvalid hmem h ih =>
    rw [listAllMember_map, if_pos hvalid, listEntries_eq]
    exact List.mem_cons_of_mem _ (List.mem_flatMap.mpr ⟨(k, v), hmem, ih⟩)

lemma Occurs.validName (h : Occurs path n target m) : validName target = true := by
  induction h with
  | here hvalid => exact hvalid
  | inside _ _ _ ih => exact ih

lemma map_toLower_of_validName (h : validName target = true) : target.map toLower = target := by
  have hchars : ∀ c ∈ ascii "abcdefghikjlmnopqrstuvwxyz._012345678", toLower c = c := by
    decide +kernel
  refine (List.map_congr_left fun c hc => ?_).trans (List.map_id target)
  exact hchars c (List.contains_iff_mem.mp (List.all_eq_true.mp h c hc))

end Paths

section Loop

variable {T : Bytes → Type} {vars : (name : Bytes) → Option (Variable (T name))}
  {print : Document → Bytes}

lemma loadOne_of_ne {vals : (name : Bytes) → T name} {e : Bytes × Document} {name : Bytes}
    (h : name ≠ e.1.map toLower) : loadOne vars print vals e name = vals name := if_pos (.inr h)

lemma loadOne_congr {vals vals' : (name : Bytes) → T name} {e : Bytes × Document} {name : Bytes}
    (h : vals name = vals' name) :
    loadOne vars print vals e name = loadOne vars print vals' e name := by
  unfold loadOne
  rw [h]

lemma foldl_loadOne_eq (l : List (Bytes × Document)) (vals : (name : Bytes) → T name)
    {name : Bytes} (h : ∀ e ∈ l, ∀ vals, loadOne vars print vals e name = vals name) :
    l.foldl (loadOne vars print) vals name = vals name := by
  induction l generalizing vals with
  | nil => rfl
  | cons e l ih =>
    rw [List.foldl_cons, ih _ fun e' he' => h e' (List.mem_cons_of_mem e he')]
    exact h e List.mem_cons_self vals

lemma foldl_loadOne_of_mem {l : List (Bytes × Document)}
    (hnodup : (l.map fun e => e.1.map toLower).Nodup) {vals : (name : Bytes) → T name}
    {e : Bytes × Document} (he : e ∈ l) :
    l.foldl (loadOne vars print) vals (e.1.map toLower) =
      loadOne vars print vals e (e.1.map toLower) := by
  induction l generalizing vals with
  | nil => cases he
  | cons e' l ih =>
    rw [List.map_cons, List.nodup_cons] at hnodup
    rw [List.foldl_cons]
    rcases List.mem_cons.mp he with rfl | he
    · refine foldl_loadOne_eq l _ fun e' he' vals => loadOne_of_ne fun heq => hnodup.1 ?_
      exact List.mem_map.mpr ⟨e', he', heq.symm⟩
    have hne : e.1.map toLower ≠ e'.1.map toLower := fun heq =>
      hnodup.1 (List.mem_map.mpr ⟨e, he, heq⟩)
    rw [ih hnodup.2 he]
    exact loadOne_congr (loadOne_of_ne hne)

/-- No two nodes below accepted names have the same path. -/
def Distinct (root : Document) : Prop := ((listAllMember [] root).map Prod.fst).Nodup
deriving Decidable

lemma map_toLower_keys (path : Bytes) (n : Document) :
    ((listAllMember path n).map fun e => e.1.map toLower) =
      (listAllMember path n).map Prod.fst := by
  refine List.map_congr_left fun e he => ?_
  exact map_toLower_of_validName (mem_listAllMember_iff.mp he).validName

lemma loadFromYaml_of_occurs {root : Document} (h : Distinct root)
    (vals : (name : Bytes) → T name) {name : Bytes} (hname : name ≠ []) {var : Variable (T name)}
    (hvar : vars name = some var) {node : Document} (hoccurs : Occurs [] root name node) :
    loadFromYaml vars print root vals name = var.fromString (nodeText print node) (vals name) := by
  have hload : (listAllMember [] root).foldl (loadOne vars print) vals (name.map toLower) = _ :=
    foldl_loadOne_of_mem (by rw [map_toLower_keys]; exact h) (mem_listAllMember_iff.mpr hoccurs)
  rw [map_toLower_of_validName hoccurs.validName] at hload
  refine hload.trans ?_
  rw [loadOne, map_toLower_of_validName hoccurs.validName, if_neg (by simp [hname]), hvar]

lemma loadFromYaml_of_not_occurs {root : Document} (vals : (name : Bytes) → T name) {name : Bytes}
    (h : name = [] ∨ vars name = none ∨ ∀ node, ¬ Occurs [] root name node) :
    loadFromYaml vars print root vals name = vals name := by
  refine foldl_loadOne_eq _ vals fun e he vals => ?_
  by_cases hkey : name = e.1.map toLower
  · unfold loadOne
    split
    · rfl
    rename_i hne
    rcases h with rfl | hvar | hno
    · exact absurd (.inl (List.map_eq_nil_iff.mp hkey.symm)) hne
    · rw [hvar]
    have hoccurs : Occurs [] root e.1 e.2 := mem_listAllMember_iff.mp he
    rw [map_toLower_of_validName hoccurs.validName] at hkey
    exact absurd (hkey ▸ hoccurs) (hno e.2)
  · exact loadOne_of_ne hkey

end Loop

/-! ## The order of entries -/

/-- The entries of maps are permuted, anywhere in the tree. -/
inductive Reordered : Document → Document → Prop
  | refl (n : Document) : Reordered n n
  | entries {es es' : Entries} (h : es.Perm es') : Reordered (.map es) (.map es')
  | value (front : Entries) (k : Document) {v v' : Document} (h : Reordered v v') (back : Entries) :
      Reordered (.map (front ++ (k, v) :: back)) (.map (front ++ (k, v') :: back))
  | item (front : List Document) {n n' : Document} (h : Reordered n n') (back : List Document) :
      Reordered (.sequence (front ++ n :: back)) (.sequence (front ++ n' :: back))
  | trans {n₁ n₂ n₃ : Document} (h₁ : Reordered n₁ n₂) (h₂ : Reordered n₂ n₃) : Reordered n₁ n₃

namespace Reordered

variable {path target : Bytes} {m n n' : Document}

lemma symm (h : Reordered n n') : Reordered n' n := by
  induction h with
  | refl n => exact .refl n
  | entries h => exact .entries h.symm
  | value front k h back ih => exact .value front k ih back
  | item front h back ih => exact .item front ih back
  | trans h₁ h₂ ih₁ ih₂ => exact .trans ih₂ ih₁

lemma occurs (h : Reordered n n') (hoccurs : Occurs path n target m) :
    ∃ m', Occurs path n' target m' ∧ Reordered m m' := by
  induction h generalizing path target m with
  | refl n => exact ⟨m, hoccurs, .refl m⟩
  | entries h =>
    cases hoccurs with
    | here hvalid => exact ⟨_, .here hvalid, .entries h⟩
    | inside hvalid hmem hin => exact ⟨m, .inside hvalid (h.mem_iff.mp hmem) hin, .refl m⟩
  | value front k h back ih =>
    cases hoccurs with
    | here hvalid => exact ⟨_, .here hvalid, .value front k h back⟩
    | inside hvalid hmem hin =>
      rcases List.mem_append.mp hmem with hfront | hrest
      · exact ⟨m, .inside hvalid (List.mem_append_left _ hfront) hin, .refl m⟩
      rcases List.mem_cons.mp hrest with heq | hback
      · cases heq
        obtain ⟨m', hin', hm⟩ := ih hin
        exact ⟨m', .inside hvalid (List.mem_append_right _ List.mem_cons_self) hin', hm⟩
      · refine ⟨m, .inside hvalid (List.mem_append_right _ ?_) hin, .refl m⟩
        exact List.mem_cons_of_mem _ hback
  | item front h back =>
    cases hoccurs with
    | here hvalid => exact ⟨_, .here hvalid, .item front h back⟩
  | trans h₁ h₂ ih₁ ih₂ =>
    obtain ⟨m₁, hin₁, hm₁⟩ := ih₁ hoccurs
    obtain ⟨m₂, hin₂, hm₂⟩ := ih₂ hin₁
    exact ⟨m₂, hin₂, hm₁.trans hm₂⟩

lemma paths (h : Reordered n n') (path : Bytes) :
    ((listAllMember path n).map Prod.fst).Perm ((listAllMember path n').map Prod.fst) := by
  induction h generalizing path with
  | refl n => exact .refl _
  | entries h =>
    rw [listAllMember_map, listAllMember_map]
    split
    · rw [listEntries_eq, listEntries_eq, List.map_cons, List.map_cons]
      exact ((h.flatMap_right _).map _).cons _
    · exact .refl _
  | value front k h back ih =>
    rw [listAllMember_map, listAllMember_map]
    split
    · simp only [listEntries_eq, List.flatMap_append, List.flatMap_cons, List.map_cons,
        List.map_append]
      exact (List.Perm.append_left _ ((ih _).append_right _)).cons _
    · exact .refl _
  | item front h back =>
    simp only [listAllMember]
    split <;> exact .refl _
  | trans h₁ h₂ ih₁ ih₂ => exact (ih₁ path).trans (ih₂ path)

lemma distinct (h : Reordered n n') (hdistinct : Distinct n) : Distinct n' :=
  (h.paths []).nodup_iff.mp hdistinct

end Reordered

section Results

variable {T : Bytes → Type} (vars : (name : Bytes) → Option (Variable (T name)))
  (print : Document → Bytes)

/-- What the variable of the name converts a node to does not depend on the order of entries. -/
def Orderless (root : Document) (name : Bytes) : Prop :=
  ∀ var, vars name = some var → ∀ n n', Occurs [] root name n → Reordered n n' →
    var.fromStr (nodeText print n) = var.fromStr (nodeText print n')

variable {vars print} in
lemma loadFromYaml_reordered {root root' : Document} {name : Bytes} (h : Distinct root)
    (horder : Orderless vars print root name) (hreordered : Reordered root root')
    (vals : (name : Bytes) → T name) :
    loadFromYaml vars print root' vals name = loadFromYaml vars print root vals name := by
  by_cases hset : name ≠ [] ∧ (∃ var, vars name = some var) ∧ ∃ node, Occurs [] root name node
  · obtain ⟨hname, ⟨var, hvar⟩, node, hoccurs⟩ := hset
    obtain ⟨node', hoccurs', hnode⟩ := hreordered.occurs hoccurs
    rw [loadFromYaml_of_occurs h vals hname hvar hoccurs,
      loadFromYaml_of_occurs (hreordered.distinct h) vals hname hvar hoccurs', Variable.fromString,
      Variable.fromString, horder var hvar node node' hoccurs hnode]
  have hcases :
      ∀ {n : Document}, ((∃ node, Occurs [] n name node) → ∃ node, Occurs [] root name node) →
      name = [] ∨ vars name = none ∨ ∀ node, ¬ Occurs [] n name node := by
    intro n hback
    by_contra hnone
    push Not at hnone
    exact hset ⟨hnone.1, Option.ne_none_iff_exists'.mp hnone.2.1, hback hnone.2.2⟩
  rw [loadFromYaml_of_not_occurs vals (hcases id),
    loadFromYaml_of_not_occurs vals (hcases fun hoccurs => ?_)]
  obtain ⟨node', hoccurs'⟩ := hoccurs
  obtain ⟨node, hoccurs, -⟩ := hreordered.symm.occurs hoccurs'
  exact ⟨node, hoccurs⟩

/-- For every document without two nodes of one path: what each variable holds after loading, and
that reordering maps changes nothing. -/
theorem loading_per_path {root : Document} (h : Distinct root) (vals : (name : Bytes) → T name) :
    (∀ name var node, name ≠ [] → vars name = some var → Occurs [] root name node →
      (var.fromStr (nodeText print node) = none →
        loadFromYaml vars print root vals name = vals name) ∧
      ∀ v, var.fromStr (nodeText print node) = some v →
        loadFromYaml vars print root vals name = v ∨
          var.eq v (vals name) = true ∧ loadFromYaml vars print root vals name = vals name) ∧
    (∀ name, name = [] ∨ vars name = none ∨ (∀ node, ¬ Occurs [] root name node) →
      loadFromYaml vars print root vals name = vals name) ∧
    (∀ name, Orderless vars print root name → ∀ root', Reordered root root' →
      loadFromYaml vars print root' vals name = loadFromYaml vars print root vals name) := by
  refine ⟨fun name var node hname hvar hoccurs => ?_, fun name hno => ?_,
    fun name horder root' hreordered => ?_⟩
  · rw [loadFromYaml_of_occurs h vals hname hvar hoccurs, Variable.fromString]
    refine ⟨fun hfail => by rw [hfail], fun v hv => ?_⟩
    rw [hv]
    dsimp only
    split
    · rename_i heq
      exact .inr ⟨heq, rfl⟩
    · exact .inl rfl
  · exact loadFromYaml_of_not_occurs vals hno
  · exact loadFromYaml_reordered h horder hreordered vals

end Results

def stringVar (name : Bytes) : Option (Variable Bytes) :=
  if name = ascii "a" then some ⟨some, (· == ·)⟩ else none

/-- A map of plain scalars as `yaml-cpp` prints it, one line for each entry. -/
def printBlock : Document → Bytes
  | .map entries => (ascii "\n").intercalate
      (entries.map fun e => keyText e.1 ++ ascii ": " ++ keyText e.2)
  | node => keyText node

def entryA : Document × Document := (.scalar (ascii "a"), .scalar (ascii "1"))

def entryB : Document × Document := (.scalar (ascii "b"), .scalar (ascii "2"))

lemma Reordered.eq_scalar {n n' : Document} (h : Reordered n n') {text : Bytes}
    (hn : n = .scalar text) : n' = .scalar text := by
  induction h with
  | refl => exact hn
  | entries | value | item => contradiction
  | trans _ _ ih₁ ih₂ => exact ih₂ (ih₁ hn)

/-- The string variable gets its scalar, also when its entry is the second one. -/
theorem loading_per_path_scalar :
    loadFromYaml stringVar printBlock (.map [entryA, entryB]) (fun _ => []) (ascii "a") =
      ascii "1" ∧
      loadFromYaml stringVar printBlock (.map [entryB, entryA]) (fun _ => []) (ascii "a") =
        ascii "1" := by
  have hdistinct : Distinct (.map [entryA, entryB]) := by decide
  have hoccurs : Occurs [] (.map [entryA, entryB]) (ascii "a") (.scalar (ascii "1")) :=
    .inside rfl List.mem_cons_self (.here rfl)
  obtain ⟨hloaded, -, horder⟩ := loading_per_path stringVar printBlock hdistinct fun _ => []
  have hvalue := ((hloaded _ _ _ (by decide) rfl hoccurs).2 _ rfl).resolve_right (by decide)
  refine ⟨hvalue, (horder _ (fun var _ n n' hn hn' => ?_) _ (.entries (.swap ..))).trans hvalue⟩
  have hname : ascii "a" ≠ [] ∧ ascii "a" ≠ ascii "b" := by decide
  have hlisted := mem_listAllMember_iff.mpr hn
  simp only [listAllMember, listEntries, entryA, entryB, childPath, keyText] at hlisted
  have hscalar : n = .scalar (ascii "1") := by simp_all
  rw [hscalar, hn'.eq_scalar hscalar]

def below (entries : Entries) : Document := .map [(.scalar (ascii "a"), .map entries)]

/-- A string that is given a map is its text, in the order of the entries. -/
theorem order_kept :
    Distinct (below [entryA, entryB]) ∧
      Reordered (below [entryA, entryB]) (below [entryB, entryA]) ∧
      loadFromYaml stringVar printBlock (below [entryA, entryB]) (fun _ => []) (ascii "a") =
        ascii "a: 1\nb: 2" ∧
      loadFromYaml stringVar printBlock (below [entryB, entryA]) (fun _ => []) (ascii "a") =
        ascii "b: 2\na: 1" := by
  refine ⟨by decide, ?_, by decide, by decide⟩
  exact .value [] _ (.entries (.swap ..)) []

end Yuyu.Config
