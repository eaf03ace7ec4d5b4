import DocumentClient.Proofs.Query.Arguments
import DocumentClient.Proofs.Query.Properties
import DocumentClient.Proofs.Query.Requirement
import DocumentClient.Proofs.Query.Setters
import Mathlib.Data.List.Nodup

/-!
# Options and keywords say the same

The settings of an options object are changes of different properties, so they may be made in any
order, and a keyword that spells one of them asks for the same change. What is left is the default
context of a scope: an options object with a context of its own never gets it, while a keyword for
the context comes later and takes its place. Main statement: `Query.keywords_for_options`.
-/

namespace DocumentClient

/-- A label with any of its letters in upper case. -/
def Text.AnyCase (label given : String) : Prop :=
  List.Forall₂ (fun c d => d = c ∨ d = c.toUpper) label.toList given.toList

theorem Text.AnyCase.refl (label : String) : AnyCase label label :=
  List.forall₂_same.mpr fun _ _ => .inl rfl

theorem Text.lowerLabel_of_anyCase {label given : String}
    (lower : label.toList.all fun c => c.toLower = c ∧ c.toUpper.toLower = c)
    (h : AnyCase label given) : lowerLabel given = label := by
  have chars : given.toList.map Char.toLower = label.toList := by
    rw [AnyCase] at h
    generalize label.toList = cs at h lower
    generalize given.toList = ds at h
    induction h with
    | nil => rfl
    | cons same _ ih =>
      rw [List.all_cons, Bool.and_eq_true, decide_eq_true_eq] at lower
      rw [List.map_cons, ih lower.2]
      rcases same with rfl | rfl
      · rw [lower.1.1]
      · rw [lower.1.2]
  rw [lowerLabel, chars, String.ofList_toList]

def ScanConsistency.label : ScanConsistency → String
  | .notBounded => "not_bounded"
  | .requestPlus => "request_plus"
  | .atPlus => "at_plus"

def Profile.label : Profile → String
  | .off => "off"
  | .phases => "phases"
  | .timings => "timings"

theorem ScanConsistency.ofLabel_of_anyCase {k : ScanConsistency} {given : String}
    (h : Text.AnyCase k.label given) : ofLabel given = .ok k := by
  have lower : Text.lowerLabel given = k.label :=
    Text.lowerLabel_of_anyCase (by cases k <;> decide) h
  rw [ofLabel, lower]
  cases k <;> simp [label]

theorem Profile.ofLabel_of_anyCase {p : Profile} {given : String}
    (h : Text.AnyCase p.label given) : ofLabel given = .ok p := by
  have lower : Text.lowerLabel given = p.label :=
    Text.lowerLabel_of_anyCase (by cases p <;> decide) h
  rw [ofLabel, lower]
  cases p <;> simp [label]

namespace QueryChange

/-- A keyword, with the name of a setting and its value as JSON. -/
inductive SpelledAs : QueryChange → String × Json.Value → Prop where
  | readOnly (b : Bool) : SpelledAs (.readOnly b) ("read_only", .bool b)
  | adhoc (b : Bool) : SpelledAs (.adhoc b) ("adhoc", .bool b)
  | flexIndex (b : Bool) : SpelledAs (.flexIndex b) ("flex_index", .bool b)
  | preserveExpiry (b : Bool) : SpelledAs (.preserveExpiry b) ("preserve_expiry", .bool b)
  | metrics (b : Bool) : SpelledAs (.metrics b) ("metrics", .bool b)
  | maxParallelism (n : UInt32) :
      SpelledAs (.maxParallelism n) ("max_parallelism", .number (.whole n.toNat))
  | pipelineBatch (n : UInt32) :
      SpelledAs (.pipelineBatch n) ("pipeline_batch", .number (.whole n.toNat))
  | pipelineCap (n : UInt32) :
      SpelledAs (.pipelineCap n) ("pipeline_cap", .number (.whole n.toNat))
  | scanCap (n : UInt32) : SpelledAs (.scanCap n) ("scan_cap", .number (.whole n.toNat))
  | clientContextId (id : String) :
      SpelledAs (.clientContextId id) ("client_context_id", .text id)
  | queryContext (context : String) :
      SpelledAs (.queryContext context) ("query_context", .text context)
  | consistency (k : ScanConsistency) {given : String} (same : Text.AnyCase k.label given) :
      SpelledAs (.consistency k) ("scan_consistency", .text given)
  | profile (p : Profile) {given : String} (same : Text.AnyCase p.label given) :
      SpelledAs (.profile p) ("profile", .text given)
  | raw (entries : List (String × Json.Value)) : SpelledAs (.raw entries) ("raw", .object entries)
  | positional (values : List Json.Value) :
      SpelledAs (.positional values) ("positional_parameters", .array values)
  | named (entries : List (String × Json.Value)) :
      SpelledAs (.named entries) ("named_parameters", .object entries)

theorem ofUnsigned_toNat (name : String) (n : UInt32) :
    ofUnsigned name (.number (.whole n.toNat)) = .ok n := by
  have fits : 0 ≤ (n.toNat : Int) ∧ (n.toNat : Int) < UInt32.size := by
    have := n.toNat_lt
    rw [UInt32.size]
    omega
  have kept : (some (n.toNat : Int)).filter (fun m : Int => 0 ≤ m ∧ m < UInt32.size) =
      some (n.toNat : Int) := Option.filter_some_pos (decide_eq_true fits)
  rw [ofUnsigned, Json.Value.whole?, kept]
  simp only [Int.toNat_natCast, UInt32.ofNat_toNat]

/-- The options that are whole numbers: their names and changes. -/
def wholeNumbers : List (String × (UInt32 → QueryChange)) :=
  [("max_parallelism", .maxParallelism), ("pipeline_batch", .pipelineBatch),
    ("pipeline_cap", .pipelineCap), ("scan_cap", .scanCap)]

theorem ofKeyword_of_wholeNumber {name : String} {make : UInt32 → QueryChange}
    (named : (name, make) ∈ wholeNumbers) (n : UInt32) :
    ofKeyword (name, .number (.whole n.toNat)) = .ok (make n) := by
  have read (v : Json.Value) : ofOption? name v = some ((ofUnsigned name v).map make) := by
    simp only [wholeNumbers, List.mem_cons, Prod.mk.injEq, List.not_mem_nil, or_false] at named
    rcases named with ⟨rfl, rfl⟩ | ⟨rfl, rfl⟩ | ⟨rfl, rfl⟩ | ⟨rfl, rfl⟩ <;> simp [ofOption?]
  rw [ofKeyword, read, ofUnsigned_toNat]
  rfl

theorem ofKeyword_of_spelledAs {c : QueryChange} {keyword : String × Json.Value}
    (h : c.SpelledAs keyword) : ofKeyword keyword = .ok c := by
  cases h with
  | maxParallelism n | pipelineBatch n | pipelineCap n | scanCap n =>
    exact ofKeyword_of_wholeNumber (by simp [wholeNumbers]) n
  | consistency k same =>
    simp [ofKeyword, ofOption?, ofText, Json.Value.text?, Except.bind, Except.map,
      ScanConsistency.ofLabel_of_anyCase same]
  | profile p same =>
    simp [ofKeyword, ofOption?, ofText, Json.Value.text?, Except.bind, Except.map,
      Profile.ofLabel_of_anyCase same]
  | _ =>
    simp [ofKeyword, ofOption?]
    rfl

theorem map_ofKeyword {cs : List QueryChange} {keywords : List (String × Json.Value)}
    (h : List.Forall₂ SpelledAs cs keywords) : keywords.map ofKeyword = cs.map .ok := by
  induction h with
  | nil => rfl
  | cons spelled _ ih => rw [List.map_cons, List.map_cons, ofKeyword_of_spelledAs spelled, ih]

theorem exists_spelling {cs : List QueryChange} {P : String × Json.Value → Prop}
    (each : ∀ c ∈ cs, ∃ keyword, P keyword ∧ c.SpelledAs keyword) :
    ∃ listed, List.Forall₂ SpelledAs cs listed ∧ ∀ keyword ∈ listed, P keyword := by
  induction cs with
  | nil => exact ⟨[], .nil, List.forall_mem_nil _⟩
  | cons c cs ih =>
    rw [List.forall_mem_cons] at each
    obtain ⟨keyword, given, spelled⟩ := each.1
    obtain ⟨listed, rest, all⟩ := ih each.2
    exact ⟨keyword :: listed, .cons spelled rest, List.forall_mem_cons.mpr ⟨given, all⟩⟩

section
variable {cs : List QueryChange} {listed : List (String × Json.Value)}

theorem exists_change_of_mem (h : List.Forall₂ SpelledAs cs listed)
    {keyword : String × Json.Value} (mem : keyword ∈ listed) :
    ∃ c ∈ cs, c.SpelledAs keyword := by
  induction h with
  | nil => cases mem
  | cons spelled rest ih =>
    rcases List.mem_cons.mp mem with rfl | later
    · exact ⟨_, List.mem_cons_self, spelled⟩
    · obtain ⟨c, given, same⟩ := ih later
      exact ⟨c, List.mem_cons_of_mem _ given, same⟩

theorem exists_keyword_of_mem (h : List.Forall₂ SpelledAs cs listed) {c : QueryChange}
    (mem : c ∈ cs) : ∃ keyword ∈ listed, c.SpelledAs keyword := by
  induction h with
  | nil => cases mem
  | cons spelled rest ih =>
    rcases List.mem_cons.mp mem with rfl | later
    · exact ⟨_, List.mem_cons_self, spelled⟩
    · obtain ⟨keyword, given, same⟩ := ih later
      exact ⟨keyword, List.mem_cons_of_mem _ given, same⟩

/-- A keyword that names an option changes what is written under that name. -/
theorem properties_of_ofKeyword {keyword : String × Json.Value} {c : QueryChange}
    {p : QueryProperty} (named : keyword.1 ∈ p.names) (made : ofKeyword keyword = .ok c) :
    c.properties = p.written := by
  obtain ⟨read, parsed, writes⟩ := ofOption?_of_named named keyword.2
  rw [ofKeyword, parsed, Option.getD_some] at made
  exact writes c made

/-- The name of a setting is that of the property that it writes. -/
theorem named_of_spelledAs {c : QueryChange} {keyword : String × Json.Value}
    (h : c.SpelledAs keyword) : ∃ p ∈ c.properties, keyword.1 ∈ p.names := by
  cases h <;> exact ⟨_, List.mem_cons_self, List.mem_cons_self⟩

theorem name_eq_of_spelledAs {c : QueryChange} {k l : String × Json.Value} (hk : c.SpelledAs k)
    (hl : c.SpelledAs l) : k.1 = l.1 := by
  cases hk <;> cases hl <;> rfl

/-- Settings that write different properties have different names. -/
theorem name_ne_of_apart {c d : QueryChange} {k l : String × Json.Value} (apart : c.Apart d)
    (hk : c.SpelledAs k) (hl : d.SpelledAs l) : k.1 ≠ l.1 := by
  intro same
  obtain ⟨p, own, named⟩ := named_of_spelledAs hk
  have written : c.properties = p.written :=
    properties_of_ofKeyword named (ofKeyword_of_spelledAs hk)
  have too : d.properties = p.written :=
    properties_of_ofKeyword (same ▸ named) (ofKeyword_of_spelledAs hl)
  exact apart p own (too ▸ written ▸ own)

theorem nodup_names_of_apart (h : List.Forall₂ SpelledAs cs listed) (apart : cs.Pairwise Apart) :
    (listed.map (·.1)).Nodup := by
  induction h with
  | nil => exact List.nodup_nil
  | cons spelled rest ih =>
    rw [List.pairwise_cons] at apart
    rw [List.map_cons, List.nodup_cons]
    refine ⟨fun again => ?_, ih apart.2⟩
    obtain ⟨keyword, later, same⟩ := List.mem_map.mp again
    obtain ⟨d, mem, other⟩ := exists_change_of_mem rest later
    exact name_ne_of_apart (apart.1 d mem) spelled other same.symm

end

end QueryChange

namespace Query
variable {q next : Query}

/-- Keywords that can be read come to their changes. -/
theorem setKeywords_eq {cs : List QueryChange} {keywords : List (String × Json.Value)}
    (read : keywords.map QueryChange.ofKeyword = cs.map .ok) (q : Query) :
    q.setKeywords keywords = q.changeAll cs := by
  induction keywords generalizing q cs with
  | nil =>
    obtain rfl := List.map_eq_nil_iff.mp read.symm
    rfl
  | cons keyword rest ih =>
    obtain ⟨c, made, rfl, rc, rr⟩ := List.map_eq_cons_iff.mp read.symm
    rw [setKeywords_cons, setKeyword_eq, ← rc, changeAll_cons]
    change (q.change c).bind _ = _
    cases q.change c with
    | error why => rfl
    | ok mid => exact ih rr.symm mid

end Query

/-- Options with settings of the sixteen kinds that are spelled as keywords, and no others. -/
structure QueryOptions.Spellable (o : QueryOptions) : Prop where
  timeout : o.timeout = none
  consistentWith : o.consistentWith = none
  scanWait : o.scanWait = none
  serializer : o.serializer = none

namespace QueryOptions

/-- What the options set, field by field. -/
def Sets (o : QueryOptions) : QueryChange → Prop
  | .timeout d => o.timeout = some d
  | .consistency k => o.scanConsistency = some k
  | .consistentWith state => o.consistentWith = some state
  | .scanWait d => o.scanWait = some d
  | .clientContextId id => o.clientContextId = some id
  | .readOnly b => o.readOnly = some b
  | .adhoc b => o.adhoc = some b
  | .maxParallelism n => o.maxParallelism = some n
  | .pipelineBatch n => o.pipelineBatch = some n
  | .pipelineCap n => o.pipelineCap = some n
  | .profile p => o.profile = some p
  | .queryContext context => o.queryContext = some context
  | .scanCap n => o.scanCap = some n
  | .flexIndex b => o.flexIndex = some b
  | .preserveExpiry b => o.preserveExpiry = some b
  | .metrics b => o.metrics = some b
  | .raw entries => o.raw = some entries
  | .positional values => o.positional = some values
  | .named entries => o.named = some entries
  | .serializer s => o.serializer = some s

theorem mem_changes_iff {o : QueryOptions} {c : QueryChange} : c ∈ o.changes ↔ o.Sets c := by
  unfold changes
  cases c <;> simp [Sets]

/-- Keywords for options: one for each field that is set, in any order, and no others. -/
structure SpelledBy (o : QueryOptions) (keywords : List (String × Json.Value)) : Prop where
  distinct : (keywords.map (·.1)).Nodup
  sound : ∀ keyword ∈ keywords, ∃ c, o.Sets c ∧ c.SpelledAs keyword
  complete : ∀ c, o.Sets c → ∃ keyword ∈ keywords, c.SpelledAs keyword

/-- Each setting of these kinds has a keyword. -/
theorem Spellable.exists_keyword {o : QueryOptions} (spellable : o.Spellable) {c : QueryChange}
    (set : o.Sets c) : ∃ keyword, c.SpelledAs keyword := by
  cases c with
  | timeout d => exact absurd (spellable.timeout.symm.trans set) nofun
  | consistentWith state => exact absurd (spellable.consistentWith.symm.trans set) nofun
  | scanWait d => exact absurd (spellable.scanWait.symm.trans set) nofun
  | serializer s => exact absurd (spellable.serializer.symm.trans set) nofun
  | consistency k => exact ⟨_, .consistency k (.refl _)⟩
  | profile p => exact ⟨_, .profile p (.refl _)⟩
  | _ => exact ⟨_, by constructor⟩

theorem sublist_of_optional {α : Type} {x : Option α} {make : α → QueryChange}
    {rest : List QueryChange} {others : List QueryProperty} (own : List QueryProperty)
    (h : ∀ a, (make a).properties = own)
    (hs : (rest.flatMap QueryChange.properties).Sublist others) :
    (((x.map make).toList ++ rest).flatMap QueryChange.properties).Sublist (own ++ others) := by
  rw [List.flatMap_append]
  refine List.Sublist.append ?_ hs
  cases x with
  | none => exact List.nil_sublist own
  | some a => rw [Option.map_some, Option.toList_some, List.flatMap_singleton, h]

/-- What the settings write, in their order. -/
def written : List QueryProperty :=
  [.timeout, .consistency, .consistentWith, .scanWait, .clientContextId, .readOnly, .adhoc,
    .maxParallelism, .pipelineBatch, .pipelineCap, .profile, .queryContext, .scanCap, .flexIndex,
    .preserveExpiry, .metrics, .raw, .positional, .named, .serializer]

theorem sublist_written {o : QueryOptions} (unasked : o.consistentWith = none) :
    (o.changes.flatMap QueryChange.properties).Sublist written := by
  unfold changes
  rw [unasked, ← List.append_nil (o.serializer.map _).toList]
  simp only [List.append_assoc, Option.map_none, Option.toList_none, List.nil_append]
  refine sublist_of_optional [_] (fun _ => rfl) ?_
  refine sublist_of_optional [_, _] (fun _ => rfl) ?_
  repeat refine sublist_of_optional [_] (fun _ => rfl) ?_
  exact List.nil_sublist []

/-- Each setting is a change of properties of its own. -/
theorem changes_apart {o : QueryOptions} (unasked : o.consistentWith = none) :
    o.changes.Pairwise QueryChange.Apart := by
  have distinct := (sublist_written unasked).nodup (by decide)
  rw [List.nodup_flatMap] at distinct
  exact distinct.2.imp fun apart p hc hd => apart hc hd

theorem Spellable.exists_keywords {o : QueryOptions} (spellable : o.Spellable) :
    ∃ keywords, o.SpelledBy keywords := by
  have each : ∀ c ∈ o.changes, ∃ keyword, True ∧ c.SpelledAs keyword := fun c mem =>
    (spellable.exists_keyword (mem_changes_iff.mp mem)).imp fun _ spelled => ⟨trivial, spelled⟩
  obtain ⟨listed, spelled, -⟩ := QueryChange.exists_spelling each
  refine ⟨listed, ?_, ?_, ?_⟩
  · exact QueryChange.nodup_names_of_apart spelled (changes_apart spellable.consistentWith)
  · intro keyword mem
    obtain ⟨c, given, same⟩ := QueryChange.exists_change_of_mem spelled mem
    exact ⟨c, mem_changes_iff.mp given, same⟩
  · intro c set
    exact QueryChange.exists_keyword_of_mem spelled (mem_changes_iff.mpr set)

/-- Keywords for options spell the changes of the options, up to their order. -/
theorem SpelledBy.exists_perm {o : QueryOptions} {keywords : List (String × Json.Value)}
    (h : o.SpelledBy keywords) (unasked : o.consistentWith = none) :
    ∃ listed, List.Forall₂ QueryChange.SpelledAs o.changes listed ∧ listed.Perm keywords := by
  have each : ∀ c ∈ o.changes, ∃ keyword, keyword ∈ keywords ∧ c.SpelledAs keyword :=
    fun c mem => h.complete c (mem_changes_iff.mp mem)
  obtain ⟨listed, spelled, given⟩ := QueryChange.exists_spelling each
  have names := QueryChange.nodup_names_of_apart spelled (changes_apart unasked)
  refine ⟨listed, spelled, (List.perm_ext_iff_of_nodup names.of_map h.distinct.of_map).mpr ?_⟩
  intro keyword
  refine ⟨given keyword, fun mem => ?_⟩
  obtain ⟨c, set, same⟩ := h.sound keyword mem
  obtain ⟨other, listed, too⟩ :=
    QueryChange.exists_keyword_of_mem spelled (mem_changes_iff.mpr set)
  -- both spell one setting, so they have one name
  have one := List.inj_on_of_nodup_map h.distinct (given other listed) mem
    (QueryChange.name_eq_of_spelledAs too same)
  exact one ▸ listed

/-- The context makes one change, and where that stands does not depend on the context. -/
theorem changes_context (o : QueryOptions) :
    ∃ before after, ∀ context, changes { o with queryContext := context } =
      before ++ ((context.map QueryChange.queryContext).toList ++ after) := by
  apply Exists.intro
  apply Exists.intro
  -- the changes around the context are read off the goal; eight settings come after it
  intro context
  unfold changes
  dsimp only
  iterate 8 rw [List.append_assoc]

theorem changes_of_context (context : Option String) :
    changes { queryContext := context } = (context.map QueryChange.queryContext).toList := by
  unfold changes
  simp only [Option.map_none, Option.toList_none, List.nil_append, List.append_nil]

theorem within_eq (o : QueryOptions) (place : Option (String × String)) :
    o.within place = { o with
      queryContext := o.queryContext.or (place.map fun p => scopeContext p.1 p.2) } := by
  have same {context : Option String} (h : context = o.queryContext) :
      o = { o with queryContext := context } := by rw [h]
  unfold within
  cases given : o.queryContext with
  | none =>
    cases place with
    | none => exact same given.symm
    | some p => rfl
  | some context => exact same given.symm

end QueryOptions

namespace Query
variable {q next : Query}

/-- Changes of different properties fail or succeed in any order, with the same query. -/
theorem changeAll_perm {cs ds : List QueryChange} (order : cs.Perm ds)
    (apart : cs.Pairwise QueryChange.Apart) (q : Query) :
    q.changeAll cs = .ok next ↔ q.changeAll ds = .ok next :=
  ⟨changeAll_of_perm order apart,
    changeAll_of_perm order.symm (order.pairwise apart QueryChange.Apart.symm)⟩

/-- A context that is set first makes no difference where another one is set. -/
theorem changeAll_context {cs rest : List QueryChange} {context : String}
    (order : cs.Perm (.queryContext context :: rest)) (apart : cs.Pairwise QueryChange.Apart)
    (default : String) (q : Query) :
    q.changeAll (.queryContext default :: cs) = .ok next ↔ q.changeAll cs = .ok next := by
  have first : q.changeAll (.queryContext default :: cs) =
    changeAll { q with queryContext := some default } cs := rfl
  rw [first, changeAll_perm order apart, changeAll_perm order apart]
  rfl

/-- Settings in any order, after the default context if there is one, come to the same as the
options with that context where they have none. -/
theorem changeAll_within {o : QueryOptions} {cs : List QueryChange} (order : o.changes.Perm cs)
    (unasked : o.consistentWith = none) (default : Option String) (q : Query) :
    q.changeAll ((default.map QueryChange.queryContext).toList ++ cs) = .ok next ↔
      q.changeAll (QueryOptions.changes { o with queryContext := o.queryContext.or default }) =
        .ok next := by
  obtain ⟨before, after, split⟩ := o.changes_context
  have own : o.changes = before ++ ((o.queryContext.map .queryContext).toList ++ after) :=
    split o.queryContext
  cases given : o.queryContext with
  | none =>
    rw [given, Option.map_none, Option.toList_none, List.nil_append] at own
    rw [own] at order
    rw [Option.none_or]
    have apart := QueryOptions.changes_apart (o := { o with queryContext := default }) unasked
    refine (changeAll_perm ?_ apart q).symm
    rw [split]
    exact (List.perm_append_comm_assoc _ _ _).trans (order.append_left _)
  | some context =>
    rw [Option.some_or, ← given]
    have apart := QueryOptions.changes_apart unasked
    rw [changeAll_perm order apart]
    cases default with
    | none => rfl
    | some d =>
      rw [given, Option.map_some, Option.toList_some] at own
      have moved : cs.Perm (.queryContext context :: (before ++ after)) :=
        order.symm.trans (own ▸ List.perm_middle)
      exact changeAll_context moved (order.pairwise apart QueryChange.Apart.symm) d q

/-- Keywords alone. -/
theorem ofArguments_keywords (place : Option (String × String)) (statement : String)
    (keywords : List (String × Json.Value)) :
    ofArguments place statement (keywords.map fun k => .keyword k.1 k.2) =
      (ofOptions statement (({} : QueryOptions).within place)).bind (·.setKeywords keywords) := by
  have sorted : SortedArguments.add {} (keywords.map fun k => .keyword k.1 k.2) =
      .ok { keywords } := by
    have options : (keywords.map fun k => QueryArgument.keyword k.1 k.2).filterMap
        QueryArgument.options? = [] := by
      rw [List.filterMap_map]
      exact List.filterMap_eq_nil_iff.mpr fun _ _ => rfl
    have positional : (keywords.map fun k => QueryArgument.keyword k.1 k.2).filterMap
        QueryArgument.positional? = [] := by
      rw [List.filterMap_map]
      exact List.filterMap_eq_nil_iff.mpr fun _ _ => rfl
    have named : (keywords.map fun k => QueryArgument.keyword k.1 k.2).filterMap
        QueryArgument.keyword? = keywords := by
      rw [List.filterMap_map]
      exact List.filterMap_some
    rw [SortedArguments.add_eq, options, positional, named]
    rfl
  rw [ofArguments_eq, sorted]
  rfl

/-- An options object and keywords that spell its settings make the same queries. -/
theorem ofArguments_keywords_iff {o : QueryOptions} {keywords : List (String × Json.Value)}
    (unasked : o.consistentWith = none) (same : o.SpelledBy keywords)
    (place : Option (String × String)) (statement : String) :
    ofArguments place statement [.options o] = .ok q ↔
      ofArguments place statement (keywords.map fun k => .keyword k.1 k.2) = .ok q := by
  obtain ⟨listed, spelled, order⟩ := same.exists_perm unasked
  obtain ⟨cs, each, shuffled⟩ := List.perm_comp_forall₂ order.symm spelled.flip
  have read := QueryChange.map_ofKeyword each.flip
  rw [ofArguments_options, ofArguments_keywords, ofOptions, ofOptions, QueryOptions.within_eq,
    QueryOptions.within_eq]
  by_cases blank : Text.trimChars statement.toList = []
  · rw [if_pos blank, if_pos blank]
    constructor
    · intro made
      cases made
    · intro made
      cases made
  · rw [if_neg blank, if_neg blank]
    rw [← changeAll_within shuffled.symm unasked, changeAll_append, funext (setKeywords_eq read),
      Option.none_or, QueryOptions.changes_of_context]

/-- Whether the settings come as an options object or as keywords, in any order: the query is the
same one, or both are refused as invalid. Keywords can be had for all settings of these kinds. -/
theorem keywords_for_options {o : QueryOptions} (spellable : o.Spellable) :
    (∃ keywords, o.SpelledBy keywords) ∧
    ∀ keywords, o.SpelledBy keywords → ∀ bucket scope statement,
      let viaOptions := create bucket scope statement [.options o]
      let viaKeywords := create bucket scope statement (keywords.map fun k => .keyword k.1 k.2)
      (∃ q, viaOptions = .ok q ∧ viaKeywords = .ok q) ∨
        ∃ e f, orRefuse .query viaOptions = .error e ∧
          orRefuse .query viaKeywords = .error f ∧
          e.kind = .invalidArgument ∧ f.kind = .invalidArgument := by
  refine ⟨spellable.exists_keywords, ?_⟩
  intro keywords spelled bucket scope statement viaOptions viaKeywords
  have same (q : Query) : viaOptions = .ok q ↔ viaKeywords = .ok q := by
    simp only [viaOptions, viaKeywords, create_eq]
    exact ofArguments_keywords_iff spellable.consistentWith spelled _ statement
  cases made : viaOptions with
  | ok q => exact .inl ⟨q, rfl, (same q).mp made⟩
  | error why =>
    cases other : viaKeywords with
    | ok q =>
      rw [(same q).mpr other] at made
      cases made
    | error reason => exact .inr ⟨_, _, rfl, rfl, rfl, rfl⟩

theorem keywords_for_options_in_scope :
    let o : QueryOptions :=
      { readOnly := some true, profile := some .off, queryContext := some "here" }
    let keywords : List (String × Json.Value) :=
      [("profile", .text "oFF"), ("read_only", .bool true), ("query_context", .text "here")]
    let q : Query :=
      { statement := "SELECT 1", readOnly := some true, profile := some .off
        queryContext := some "here" }
    create (some "travel") (some "inventory") "SELECT 1" [.options o] = .ok q ∧
      create (some "travel") (some "inventory") "SELECT 1"
        (keywords.map fun k => .keyword k.1 k.2) = .ok q := by
  intro o keywords q
  have spellable : o.Spellable := ⟨rfl, rfl, rfl, rfl⟩
  have changes : o.changes = [.readOnly true, .profile .off, .queryContext "here"] := by
    unfold QueryOptions.changes
    simp only [o, Option.map_none, Option.toList_none, Option.map_some, Option.toList_some,
      List.nil_append, List.append_nil, List.cons_append]
  have label : Text.AnyCase Profile.off.label "oFF" :=
    .cons (.inl rfl) (.cons (.inr rfl) (.cons (.inr rfl) .nil))
  have spelled : o.SpelledBy keywords := by
    constructor
    · decide
    · rw [List.forall_mem_cons, List.forall_mem_cons, List.forall_mem_singleton]
      exact ⟨⟨.profile .off, rfl, .profile .off label⟩, ⟨.readOnly true, rfl, .readOnly true⟩,
        ⟨.queryContext "here", rfl, .queryContext "here"⟩⟩
    · intro c set
      rw [← QueryOptions.mem_changes_iff, changes] at set
      simp only [List.mem_cons, List.not_mem_nil, or_false] at set
      rcases set with rfl | rfl | rfl
      · exact ⟨_, .tail _ (.head _), .readOnly true⟩
      · exact ⟨_, .head _, .profile .off label⟩
      · exact ⟨_, .tail _ (.tail _ (.head _)), .queryContext _⟩
  have text : Text.trimChars "SELECT 1".toList ≠ [] := by decide
  have made : create (some "travel") (some "inventory") "SELECT 1" [.options o] = .ok q := by
    rw [create_eq, ofArguments_options, ofOptions, if_neg text]
    change Query.changeAll { statement := "SELECT 1" } o.changes = _
    rw [changes]
    rfl
  obtain ⟨other, same, viaKeywords⟩ | ⟨e, -, failed, -⟩ :=
    (keywords_for_options spellable).2 keywords spelled (some "travel") (some "inventory")
      "SELECT 1"
  · rw [made] at same
    cases same
    exact ⟨made, viaKeywords⟩
  · rw [made] at failed
    cases failed

end Query
end DocumentClient
