import DocumentClient.Proofs.Bytes
import DocumentClient.Proofs.Keyed
import DocumentClient.Proofs.Query.Keywords
import DocumentClient.Proofs.Query.Setters
import DocumentClient.Proofs.Requests.Parts

/-!
# Where the parameters of a query come from

Named parameters are written by the options object, by keywords that are no options and by the
keyword for several of them, and any of these may spell a name with a dollar sign. All of them are
changes of one map, made in a fixed order. So what a query has under a name is what was written
last in any spelling of it, and positional parameters are those of the last source that has any say.
Main statement: `Query.parameters_of_create`.
-/

namespace DocumentClient

/-- Entries in the ascending order of the octets of their keys. -/
def Keyed.ascending {α : Type} (entries : List (String × α)) : List (String × α) :=
  entries.mergeSort fun a b => Bytes.ofString a.1 ≤ Bytes.ofString b.1

/-- A map holds its entries in that order. -/
theorem Keyed.ascending_of_ordered {α : Type} {entries : List (String × α)}
    (ordered : Ordered entries) : ascending entries = entries := by
  apply List.mergeSort_of_pairwise
  refine ordered.imp fun below => ?_
  exact decide_eq_true (List.le_of_lt (Bytes.ofString_lt_iff.mpr below))

/-- A spelling of the name of a parameter: one dollar sign and the name, or the name alone, but then
the name does not begin with such a sign. -/
inductive SpellsName : String → String → Prop where
  | dollar (name : String) : SpellsName ("$" ++ name) name
  | plain {name : String} (bare : ∀ rest, name ≠ "$" ++ rest) : SpellsName name name

theorem spellsName_iff {spelling name : String} :
    SpellsName spelling name ↔ parameterName spelling = name := by
  rw [parameterName]
  constructor
  · rintro (⟨⟩ | ⟨bare⟩)
    · simp
    · split
      · next rest sign =>
        exact absurd (String.toList_inj.mp (by simp [sign])) (bare (.ofList rest))
      · rfl
  · intro h
    split at h
    · next rest sign =>
      obtain rfl := h
      have dollar : spelling = "$" ++ .ofList rest := String.toList_inj.mp (by simp [sign])
      exact dollar ▸ .dollar _
    · next plain =>
      obtain rfl := h
      refine .plain fun rest dollar => plain rest.toList ?_
      rw [dollar, String.toList_append]
      rfl

/-- A write of a named parameter under its name. -/
def namedWrite (e : String × Json.Value) : String × Json.Value := (parameterName e.1, e.2)

/-- The last write to the name of a parameter, in any spelling. -/
def WrittenLast (e : String × Json.Value) (writes : List (String × Json.Value)) : Prop :=
  ∃ before spelling after, writes = before ++ (spelling, e.2) :: after ∧
    SpellsName spelling e.1 ∧ ∀ w ∈ after, ¬ SpellsName w.1 e.1

theorem lastIn_map_namedWrite_iff {e : String × Json.Value}
    {writes : List (String × Json.Value)} :
    Keyed.LastIn e (writes.map namedWrite) ↔ WrittenLast e writes := by
  constructor
  · rintro ⟨before, after, split, others⟩
    obtain ⟨earlier, rest, rfl, -, last⟩ := List.map_eq_append_iff.mp split
    obtain ⟨w, later, rfl, rfl, rfl⟩ := List.map_eq_cons_iff.mp last
    refine ⟨earlier, w.1, later, rfl, spellsName_iff.mpr rfl, fun v mem same => ?_⟩
    exact others _ (List.mem_map_of_mem mem) (spellsName_iff.mp same)
  · rintro ⟨before, spelling, after, rfl, spelled, others⟩
    refine ⟨before.map namedWrite, after.map namedWrite, ?_, ?_⟩
    · rw [List.map_append, List.map_cons, namedWrite, spellsName_iff.mp spelled]
    · intro f mem same
      obtain ⟨w, later, rfl⟩ := List.mem_map.mp mem
      exact others w later (spellsName_iff.mpr same)

namespace QueryChange

/-- The named parameters that a change writes, one after another. -/
def namedWrites : QueryChange → List (String × Json.Value)
  | .named entries => entries.map namedWrite
  | _ => []

/-- The positional parameters that a change sets. -/
def positional? : QueryChange → Option (List Json.Value)
  | .positional values => some values
  | _ => none

theorem namedWrites_of_other {c : QueryChange} (other : .named ∉ c.properties) :
    c.namedWrites = [] := by
  cases c with
  | named entries => exact absurd (List.mem_singleton_self _) other
  | _ => rfl

theorem positional?_of_other {c : QueryChange} (other : .positional ∉ c.properties) :
    c.positional? = none := by
  cases c with
  | positional values => exact absurd (List.mem_singleton_self _) other
  | _ => rfl

end QueryChange

namespace Query
variable {q next : Query}

/-- The named parameters after a change are those written before and by it. -/
theorem named_of_change {c : QueryChange} {written : List (String × Json.Value)}
    (before : q.named = Keyed.ofList written) (changed : q.change c = .ok next) :
    next.named = Keyed.ofList (written ++ c.namedWrites) := by
  by_cases own : .named ∈ c.properties
  · cases c with
    | named entries =>
      cases changed
      rw [QueryChange.namedWrites, Keyed.ofList, List.foldl_append, List.foldl_map]
      change entries.foldl _ q.named = _
      rw [before]
      rfl
    | _ => simp [QueryChange.properties] at own
  · have same : next.named = q.named := get_of_change changed own
    rw [same, before, QueryChange.namedWrites_of_other own, List.append_nil]

theorem positional_of_change {c : QueryChange} (changed : q.change c = .ok next) :
    next.positional = c.positional?.getD q.positional := by
  cases c with
  | positional values =>
    cases changed
    rfl
  | _ =>
    apply get_of_change (p := .positional) changed
    simp [QueryChange.properties]

theorem named_of_changeAll {cs : List QueryChange} {written : List (String × Json.Value)}
    (before : q.named = Keyed.ofList written) (changed : q.changeAll cs = .ok next) :
    next.named = Keyed.ofList (written ++ cs.flatMap QueryChange.namedWrites) := by
  induction cs generalizing q written with
  | nil =>
    cases changed
    rw [before, List.flatMap_nil, List.append_nil]
  | cons c cs ih =>
    obtain ⟨mid, first, rest⟩ := changeAll_cons_eq_ok.mp changed
    rw [ih (named_of_change before first) rest, List.flatMap_cons, List.append_assoc]

/-- The last change that sets the positional parameters counts. -/
theorem positional_of_changeAll {cs : List QueryChange} (changed : q.changeAll cs = .ok next) :
    next.positional = (cs.filterMap QueryChange.positional?).getLast?.getD q.positional := by
  have step {q next : Query} {c : QueryChange} (made : q.change c = .ok next) :
      next.positional = (c.positional?.map id).getD q.positional := by
    rw [Option.map_id, id]
    exact positional_of_change made
  have last := view_of_changeAll Query.positional QueryChange.positional? id step changed
  rwa [Option.map_id, id] at last

end Query

namespace QueryOptions

/-- A setting makes one change, or none. -/
theorem flatMap_setting {α β : Type} (x : Option α) (make : α → QueryChange)
    (f : QueryChange → List β) :
    (x.map make).toList.flatMap f = x.toList.flatMap fun a => f (make a) := by
  cases x <;> rfl

theorem filterMap_setting {α β : Type} (x : Option α) (make : α → QueryChange)
    (f : QueryChange → Option β) :
    (x.map make).toList.filterMap f = x.toList.filterMap fun a => f (make a) := by
  cases x <;> rfl

theorem namedWrites_changes (o : QueryOptions) :
    o.changes.flatMap QueryChange.namedWrites = (o.named.getD []).map namedWrite := by
  have silent {α : Type} (x : Option α) :
      x.toList.flatMap (fun _ => ([] : List (String × Json.Value))) = [] :=
    List.flatMap_eq_nil_iff.mpr fun _ _ => rfl
  unfold changes
  simp only [List.flatMap_append, flatMap_setting, QueryChange.namedWrites, silent,
    List.nil_append, List.append_nil]
  cases o.named with
  | none => rfl
  | some entries => exact List.flatMap_singleton _ _

theorem positional?_changes (o : QueryOptions) :
    o.changes.filterMap QueryChange.positional? = o.positional.toList := by
  unfold changes
  simp only [List.filterMap_append, filterMap_setting, QueryChange.positional?,
    List.filterMap_none, List.nil_append, List.append_nil, List.filterMap_some]

end QueryOptions

namespace QueryArgument

/-- The names of all query options. -/
def optionNames : List String := QueryProperty.all.flatMap QueryProperty.names

/-- The members of a JSON object. -/
def membersOf : Json.Value → List (String × Json.Value)
  | .object members => members
  | _ => []

/-- The named parameters that a keyword writes: those of a map, or itself unless it is an option. -/
def keywordWrites (keyword : String × Json.Value) : List (String × Json.Value) :=
  if keyword.1 = "named_parameters" then Keyed.ascending (membersOf keyword.2)
  else if keyword.1 ∈ optionNames then [] else [keyword]

/-- The values of the keywords with a name, in their order. -/
def keywordValues (name : String) (args : List QueryArgument) : List Json.Value :=
  (args.filterMap keyword?).filterMap fun k => if k.1 = name then some k.2 else none

/-- All writes of named parameters that some arguments ask for, as they are spelled: those of the
options object in the order of their keys, then those of the keywords. -/
def namedWrites (args : List QueryArgument) : List (String × Json.Value) :=
  (args.filterMap options?).flatMap (fun o => Keyed.ascending (o.named.getD [])) ++
    (args.filterMap keyword?).flatMap keywordWrites

/-- The maps that an argument hands in are ordered by key. -/
def MapsOrdered : QueryArgument → Prop
  | .options o => Keyed.Ordered (o.named.getD [])
  | .positional _ => True
  | .keyword _ v => Keyed.Ordered (membersOf v)

instance : DecidablePred MapsOrdered
  | .options o => inferInstanceAs (Decidable (Keyed.Ordered (o.named.getD [])))
  | .positional _ => .isTrue True.intro
  | .keyword _ v => inferInstanceAs (Decidable (Keyed.Ordered (membersOf v)))

theorem mem_optionNames_iff {name : String} :
    name ∈ optionNames ↔ ∃ p : QueryProperty, name ∈ p.names := by
  rw [optionNames, List.mem_flatMap]
  exact ⟨fun ⟨p, _, h⟩ => ⟨p, h⟩, fun ⟨p, h⟩ => ⟨p, p.mem_all, h⟩⟩

end QueryArgument

namespace QueryChange
variable {keyword : String × Json.Value} {c : QueryChange}

/-- A keyword writes what its name stands for, or a named parameter. -/
theorem named_of_ofKeyword {p : QueryProperty} (made : ofKeyword keyword = .ok c)
    (own : p ∈ c.properties) :
    p = .named ∨ ∃ r : QueryProperty, keyword.1 ∈ r.names ∧ p ∈ r.written := by
  by_cases option : ∃ r : QueryProperty, keyword.1 ∈ r.names
  · obtain ⟨r, named⟩ := option
    rw [properties_of_ofKeyword named made] at own
    exact .inr ⟨r, named, own⟩
  · rw [ofKeyword, ofOption?_of_unnamed fun r named => option ⟨r, named⟩] at made
    cases made
    exact .inl (List.mem_singleton.mp own)

theorem ofKeyword_named (v : Json.Value) :
    ofKeyword ("named_parameters", v) = (ofObject "named_parameters" v).map .named := by
  simp [ofKeyword, ofOption?]

theorem ofKeyword_positional (v : Json.Value) :
    ofKeyword ("positional_parameters", v) =
      (ofArray "positional_parameters" v).map .positional := by
  simp [ofKeyword, ofOption?]

theorem named_mem_written_iff {p : QueryProperty} :
    QueryProperty.named ∈ p.written ↔ p = .named := by
  cases p <;> decide

theorem positional_mem_written_iff {p : QueryProperty} :
    QueryProperty.positional ∈ p.written ↔ p = .positional := by
  cases p <;> decide

theorem namedWrites_of_ofKeyword (ordered : Keyed.Ordered (QueryArgument.membersOf keyword.2))
    (made : ofKeyword keyword = .ok c) :
    c.namedWrites = (QueryArgument.keywordWrites keyword).map namedWrite := by
  rw [QueryArgument.keywordWrites, Keyed.ascending_of_ordered ordered]
  split
  · next several =>
    obtain ⟨name, v⟩ := keyword
    obtain rfl : name = "named_parameters" := several
    rw [ofKeyword_named] at made
    cases v <;> cases made
    rfl
  split
  · next one option =>
    obtain ⟨p, named⟩ := QueryArgument.mem_optionNames_iff.mp option
    refine namedWrites_of_other fun own => one ?_
    rw [properties_of_ofKeyword named made, named_mem_written_iff] at own
    subst own
    exact List.mem_singleton.mp named
  · next one free =>
    have unnamed : ∀ p : QueryProperty, keyword.1 ∉ p.names := fun p named =>
      free (QueryArgument.mem_optionNames_iff.mpr ⟨p, named⟩)
    rw [ofKeyword, ofOption?_of_unnamed unnamed] at made
    cases made
    rfl

theorem positional?_of_ofKeyword (made : ofKeyword keyword = .ok c) :
    c.positional?.map Json.Value.array =
      if keyword.1 = "positional_parameters" then some keyword.2 else none := by
  split
  · next all =>
    obtain ⟨name, v⟩ := keyword
    obtain rfl : name = "positional_parameters" := all
    rw [ofKeyword_positional] at made
    cases v <;> cases made
    rfl
  · next other =>
    have unset : c.positional? = none := by
      apply positional?_of_other
      intro own
      rcases named_of_ofKeyword made own with parameter | ⟨r, named, wrote⟩
      · cases parameter
      · rw [positional_mem_written_iff] at wrote
        subst wrote
        exact other (List.mem_singleton.mp named)
    rw [unset, Option.map_none]

/-- Keywords write what each of them writes, in their order. -/
theorem namedWrites_of_keywords {keywords : List (String × Json.Value)} {cs : List QueryChange}
    (ordered : ∀ k ∈ keywords, Keyed.Ordered (QueryArgument.membersOf k.2))
    (made : keywords.map ofKeyword = cs.map .ok) :
    cs.flatMap namedWrites = (keywords.flatMap QueryArgument.keywordWrites).map namedWrite := by
  induction keywords generalizing cs with
  | nil =>
    obtain rfl := List.map_eq_nil_iff.mp made.symm
    rfl
  | cons keyword rest ih =>
    obtain ⟨c, others, rfl, first, tail⟩ := List.map_eq_cons_iff.mp made.symm
    rw [List.forall_mem_cons] at ordered
    rw [List.flatMap_cons, List.flatMap_cons, List.map_append, ih ordered.2 tail.symm,
      namedWrites_of_ofKeyword ordered.1 first.symm]

theorem positional?_of_keywords {keywords : List (String × Json.Value)} {cs : List QueryChange}
    (made : keywords.map ofKeyword = cs.map .ok) :
    (cs.filterMap positional?).map Json.Value.array =
      keywords.filterMap fun k => if k.1 = "positional_parameters" then some k.2 else none := by
  induction keywords generalizing cs with
  | nil =>
    obtain rfl := List.map_eq_nil_iff.mp made.symm
    rfl
  | cons keyword rest ih =>
    obtain ⟨c, others, rfl, first, tail⟩ := List.map_eq_cons_iff.mp made.symm
    have own := positional?_of_ofKeyword first.symm
    rw [List.filterMap_cons, List.filterMap_cons, ← own, ← ih tail.symm]
    cases c.positional? <;> rfl

end QueryChange

/-- Where a named parameter may come from. -/
inductive QueryArgument.Source (args : List QueryArgument) (e : String × Json.Value) : Prop where
  | options {o : QueryOptions} {name : String} (given : .options o ∈ args)
    (mem : (name, e.2) ∈ o.named.getD []) (spells : SpellsName name e.1)
  /-- An option does not become a parameter. -/
  | keyword {name : String} (given : .keyword name e.2 ∈ args) (free : name ∉ optionNames)
    (spells : SpellsName name e.1)
  | several {members : List (String × Json.Value)} {name : String}
    (given : .keyword "named_parameters" (.object members) ∈ args) (mem : (name, e.2) ∈ members)
    (spells : SpellsName name e.1)

/-- What some arguments come to as the parameters of the query made from them. -/
structure QueryArgument.Parameters (args : List QueryArgument) (q : Query) : Prop where
  /-- The last keyword for the whole list decides. -/
  fromKeyword : ∀ v, (keywordValues "positional_parameters" args).getLast? = some v →
    v = .array q.positional
  /-- Explicit parameters come before those of the options object. -/
  explicit : keywordValues "positional_parameters" args = [] →
    args.filterMap positional? ≠ [] → q.positional = args.filterMap positional?
  fromOptions : keywordValues "positional_parameters" args = [] →
    args.filterMap positional? = [] →
      q.positional = (args.filterMap options?).flatMap fun o => o.positional.getD []
  /-- Each name has what was written last. -/
  named : ∀ e, e ∈ q.named ↔ WrittenLast e (namedWrites args)
  ordered : Keyed.Ordered q.named
  /-- No other names appear. -/
  sources : ∀ e ∈ q.named, Source args e

namespace QueryArgument
variable {args : List QueryArgument}

theorem options_mem {o : QueryOptions} (h : o ∈ args.filterMap options?) : .options o ∈ args := by
  obtain ⟨a, mem, same⟩ := List.mem_filterMap.mp h
  cases a <;> cases same
  exact mem

theorem keyword_mem {k : String × Json.Value} (h : k ∈ args.filterMap keyword?) :
    .keyword k.1 k.2 ∈ args := by
  obtain ⟨a, mem, same⟩ := List.mem_filterMap.mp h
  cases a <;> cases same
  exact mem

theorem mem_ascending {entries : List (String × Json.Value)} {e : String × Json.Value} :
    e ∈ Keyed.ascending entries ↔ e ∈ entries := List.mem_mergeSort

theorem source_of_mem_namedWrites {e : String × Json.Value} {spelling : String}
    (h : (spelling, e.2) ∈ namedWrites args) (spells : SpellsName spelling e.1) :
    Source args e := by
  rcases List.mem_append.mp h with mem | mem
  · obtain ⟨o, taken, mem⟩ := List.mem_flatMap.mp mem
    exact .options (options_mem taken) (mem_ascending.mp mem) spells
  · obtain ⟨⟨given, w⟩, taken, mem⟩ := List.mem_flatMap.mp mem
    have taken := keyword_mem taken
    rw [keywordWrites] at mem
    split at mem
    · next several =>
      obtain rfl : given = "named_parameters" := several
      have mem := mem_ascending.mp mem
      cases w with
      | object members => exact .several taken mem spells
      | _ => cases mem
    split at mem
    · cases mem
    · next free =>
      cases List.mem_singleton.mp mem
      exact .keyword taken free spells

end QueryArgument

namespace SortedArguments

theorem named_merged (sorted : SortedArguments) (place : Option (String × String)) :
    (sorted.merged place).named = (sorted.options.getD {}).named := by
  rw [merged, QueryOptions.within_eq]
  split <;> rfl

theorem positional_merged (sorted : SortedArguments) (place : Option (String × String)) :
    (sorted.merged place).positional =
      if sorted.positional = [] then (sorted.options.getD {}).positional
      else some sorted.positional := by
  rw [merged, QueryOptions.within_eq]
  split <;> rfl

end SortedArguments

namespace Query
variable {q : Query}

theorem parameters_of_ofOptions {statement : String} {o : QueryOptions}
    (made : ofOptions statement o = .ok q) :
    q.named = Keyed.ofList ((o.named.getD []).map namedWrite) ∧
      q.positional = o.positional.getD [] := by
  rw [ofOptions] at made
  split at made
  · cases made
  have empty : ({ statement } : Query).named = Keyed.ofList [] := rfl
  have named := named_of_changeAll empty made
  have positional := positional_of_changeAll made
  rw [o.namedWrites_changes, List.nil_append] at named
  rw [o.positional?_changes] at positional
  refine ⟨named, positional.trans ?_⟩
  cases o.positional <;> rfl

theorem eq_toList_head? {α : Type} {l : List α} (single : l.length ≤ 1) : l = l.head?.toList := by
  match l, single with
  | [], _ => rfl
  | [a], _ => rfl

/-- A query is made from one options object at most, which is applied first, and the keywords. -/
theorem ofArguments_split {place : Option (String × String)} {statement : String}
    {args : List QueryArgument} (made : ofArguments place statement args = .ok q) :
    ∃ sorted : SortedArguments, args.filterMap QueryArgument.options? = sorted.options.toList ∧
      sorted.positional = args.filterMap QueryArgument.positional? ∧
      ∃ base, ofOptions statement (sorted.merged place) = .ok base ∧
        base.setKeywords (args.filterMap QueryArgument.keyword?) = .ok q := by
  rw [ofArguments_eq] at made
  obtain ⟨sorted, taken, made⟩ := bind_eq_ok_iff.mp made
  obtain ⟨base, based, keywords⟩ := bind_eq_ok_iff.mp made
  rw [SortedArguments.add_eq] at taken
  split at taken
  · next single =>
    rw [Option.toList_none, List.nil_append] at single
    cases taken
    exact ⟨_, eq_toList_head? single, rfl, base, based, keywords⟩
  · cases taken

/-- The named parameters of a query: all that its arguments write, made one map. -/
theorem named_of_ofArguments {place : Option (String × String)} {statement : String}
    {args : List QueryArgument} (ordered : ∀ a ∈ args, a.MapsOrdered)
    (made : ofArguments place statement args = .ok q) :
    q.named = Keyed.ofList ((QueryArgument.namedWrites args).map namedWrite) := by
  obtain ⟨sorted, options, -, base, based, keywords⟩ := ofArguments_split made
  obtain ⟨changes, read, changed⟩ := changeAll_of_setKeywords keywords
  have maps : ∀ k ∈ args.filterMap QueryArgument.keyword?,
      Keyed.Ordered (QueryArgument.membersOf k.2) :=
    fun k hk => ordered _ (QueryArgument.keyword_mem hk)
  have first := (parameters_of_ofOptions based).1
  rw [named_of_changeAll first changed, QueryChange.namedWrites_of_keywords maps read,
    ← List.map_append, SortedArguments.named_merged, QueryArgument.namedWrites, options]
  cases taken : sorted.options with
  | none => rfl
  | some o =>
    have given : .options o ∈ args := by
      apply QueryArgument.options_mem
      rw [options, taken]
      exact List.mem_singleton_self o
    rw [Option.toList_some, List.flatMap_singleton, Option.getD_some,
      Keyed.ascending_of_ordered (ordered _ given)]

/-- The positional parameters of a query: the last list among the keywords, or what there is
without keywords. -/
theorem positional_of_ofArguments {place : Option (String × String)} {statement : String}
    {args : List QueryArgument} (made : ofArguments place statement args = .ok q) :
    ∃ lists : List (List Json.Value),
      QueryArgument.keywordValues "positional_parameters" args = lists.map .array ∧
        q.positional = lists.getLast?.getD
          (if args.filterMap QueryArgument.positional? = [] then
            (args.filterMap QueryArgument.options?).flatMap fun o => o.positional.getD []
          else args.filterMap QueryArgument.positional?) := by
  obtain ⟨sorted, options, explicit, base, based, keywords⟩ := ofArguments_split made
  obtain ⟨changes, read, changed⟩ := changeAll_of_setKeywords keywords
  refine ⟨_, (QueryChange.positional?_of_keywords read).symm, ?_⟩
  rw [positional_of_changeAll changed, (parameters_of_ofOptions based).2,
    SortedArguments.positional_merged, explicit, options]
  split
  · cases sorted.options with
    | none => rfl
    | some o => rw [Option.toList_some, List.flatMap_singleton, Option.getD_some]
  · rfl

/-- For any arguments a query is made from: where its positional parameters come from, and that
each named one is the last write of its name. -/
theorem parameters_of_create {args : List QueryArgument}
    (ordered : ∀ a ∈ args, a.MapsOrdered) {bucket scope : Option String} {statement : String}
    (made : create bucket scope statement args = .ok q) : QueryArgument.Parameters args q := by
  rw [create_eq] at made
  have named := named_of_ofArguments ordered made
  obtain ⟨lists, given, positional⟩ := positional_of_ofArguments made
  constructor
  · intro v last
    rw [given, List.getLast?_map] at last
    obtain ⟨values, found, rfl⟩ := Option.map_eq_some_iff.mp last
    rw [positional, found, Option.getD_some]
  · intro none some
    obtain rfl := List.map_eq_nil_iff.mp (given.symm.trans none)
    exact positional.trans (if_neg some)
  · intro none missing
    obtain rfl := List.map_eq_nil_iff.mp (given.symm.trans none)
    exact positional.trans (if_pos missing)
  · intro e
    rw [named, Keyed.mem_ofList_iff, lastIn_map_namedWrite_iff]
  · rw [named]
    exact Keyed.ordered_ofList _
  · intro e mem
    rw [named, Keyed.mem_ofList_iff, lastIn_map_namedWrite_iff] at mem
    obtain ⟨before, spelling, after, split, spells, -⟩ := mem
    refine QueryArgument.source_of_mem_namedWrites ?_ spells
    rw [split]
    exact List.mem_append_right before List.mem_cons_self

theorem parameters_of_create_of_two_spellings :
    let entries : List (String × Json.Value) :=
      [("$$x", .bool true), ("$city", .text "Paris"), ("city", .text "Lyon"), ("limit", .null)]
    let o : QueryOptions := { positional := some [.bool true], named := some entries }
    let several : List (String × Json.Value) := [("$stop", .null), ("stop", .text "Nice")]
    let args : List QueryArgument :=
      [.keyword "$limit" (.bool false), .positional .null, .options o,
        .keyword "named_parameters" (.object several), .keyword "adhoc" (.bool true)]
    (∀ a ∈ args, a.MapsOrdered) ∧ ∃ q : Query,
      create none (some "routes") "SELECT 1" args = .ok q ∧
        QueryArgument.Parameters args q ∧ q.positional = [.null] ∧
          q.named = [("$x", .bool true), ("city", .text "Lyon"), ("limit", .bool false),
            ("stop", .text "Nice")] := by
  intro entries o several args
  have ordered : ∀ a ∈ args, a.MapsOrdered := by decide
  have text : Text.trimChars "SELECT 1".toList ≠ [] := by decide
  let keywords : List (String × Json.Value) :=
    [("$limit", .bool false), ("named_parameters", .object several), ("adhoc", .bool true)]
  have taken : SortedArguments.add {} args = .ok ⟨some o, [.null], keywords⟩ := rfl
  have merged : SortedArguments.merged ⟨some o, [.null], keywords⟩ none =
      { positional := some [.null], named := some entries } := rfl
  have asked : QueryOptions.changes { positional := some [.null], named := some entries } =
      [.positional [.null], .named entries] := by
    unfold QueryOptions.changes
    simp
  have read : keywords.map QueryChange.ofKeyword =
      [.named [("$limit", .bool false)], .named several, .adhoc true].map .ok := by
    simp [keywords, QueryChange.ofKeyword, QueryChange.ofOption?]
    exact ⟨rfl, rfl⟩
  have made : ∃ q, create none (some "routes") "SELECT 1" args = .ok q ∧
      q.named = [("$x", .bool true), ("city", .text "Lyon"), ("limit", .bool false),
        ("stop", .text "Nice")] := by
    rw [create_eq, ofArguments_eq, taken]
    simp only [Except.bind, Option.bind_none, merged, ofOptions, if_neg text, asked, changeAll,
      Query.change, setKeywords_eq read]
    exact ⟨_, rfl, rfl⟩
  obtain ⟨q, made, held⟩ := made
  have parameters := parameters_of_create ordered made
  have none : QueryArgument.keywordValues "positional_parameters" args = [] := by decide
  exact ⟨ordered, q, made, parameters, parameters.explicit none (List.cons_ne_nil _ _), held⟩

end Query
end DocumentClient
