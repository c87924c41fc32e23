import QueryPipeline.Proofs.Coverage
import QueryPipeline.Proofs.WellFormed

/-!
# The text of a pipeline is unambiguous

What the text of a whole pipeline tells, in the arrow dialect with its ordering terms written.

* a clause is written as one phrase behind an arrow: its verb with its arguments
  (`clauseText_eq`), and the phrase tells the reading of the clause
  (`Clause.Regular.normal_injective`);
* the lines of several clauses are told apart from the front, since each line closes the phrase
  before it (`lines_injective`);
* **`render_unambiguous`**: two pipelines are written alike iff they start at the same table and
  their clauses have the same readings.
-/

namespace QueryPipeline

/-! ## 1. Phrases of clauses -/

namespace ClauseReading

/-- The word that opens a clause. -/
def verb : ClauseReading → String
  | select _ => "project"
  | extend _ => "extend"
  | rename _ => "rename"
  | filter _ => "filter"
  | groupBy _ _ _ => "groupBy"
  | orderBy _ => "sort"
  | limit _ => "take"
  | offset _ => "drop"
  | join _ _ _ => "join"
  | distinct _ | foreign _ _ => ""

/-- The phrases in the parentheses of a clause. -/
def arguments : ClauseReading → List Phrase
  | select columns | extend columns | rename columns => [.listed (Reading.phrases columns)]
  | filter predicate => [predicate.phrase]
  | groupBy keys selections having =>
    .listed (Reading.phrases keys) :: .listed (Reading.phrases selections) ::
      Reading.phrases having.toList
  | orderBy terms => [.listed (Reading.phrases terms)]
  | limit count | offset count => [.word (count.elim "" intText)]
  | join other kind condition =>
    [.word other.text, .word kind.token.inline, condition.phrase]
  | distinct _ | foreign _ _ => []

/-- The phrase in which a clause is written. -/
def phrase (r : ClauseReading) : Phrase := .applied r.verb r.arguments

/-- The lines of several clauses. -/
def lines : List ClauseReading → String
  | [] => ""
  | r :: rest => "\n->" ++ r.phrase.text ++ lines rest

end ClauseReading

/-- The kind of clause that a word opens. -/
def ClauseKind.ofVerb : String → Option ClauseKind
  | "project" => some .select
  | "extend" => some .extend
  | "rename" => some .rename
  | "filter" => some .filter
  | "groupBy" => some .groupBy
  | "sort" => some .orderBy
  | "take" => some .limit
  | "drop" => some .offset
  | "join" => some .join
  | _ => none

/-! ## 2. Names of places, kinds of joins and counts -/

theorem TableName.Identified.isWord {n : TableName} (h : n.Identified) : IsWord n.text := by
  obtain ⟨hdatabase, htable⟩ := h
  have hpoint : IsWord "." := by decide
  have hfront : IsWord (n.database ++ ".") :=
    isWord_append (isWord_of_identifier hdatabase) hpoint.chars
  exact isWord_append hfront (isWord_of_identifier htable).chars

/-- **A place is determined by its text**, since no identifier has a point in it. -/
theorem TableName.text_injective {m n : TableName} (hm : m.Identified) (hn : n.Identified)
    (h : m.text = n.text) : m = n := by
  have split (k : TableName) : k.text.toList = k.database.toList ++ '.' :: k.table.toList := by
    simp [text]
  have noPoint {k : TableName} (hk : k.Identified) : '.' ∉ k.database.toList :=
    point_not_mem_identifier hk.1
  have hchars : m.database.toList ++ '.' :: m.table.toList =
      n.database.toList ++ '.' :: n.table.toList := by
    rw [← split, ← split, h]
  have hdatabase : m.database = n.database := by
    have htaken := congrArg (List.takeWhile (· != '.')) hchars
    rw [Phrase.takeWhile_ne (noPoint hm), Phrase.takeWhile_ne (noPoint hn)] at htaken
    exact String.toList_injective htaken
  have htable : m.table = n.table := by
    have hdropped := congrArg (List.dropWhile (· != '.')) hchars
    rw [Phrase.dropWhile_ne (noPoint hm), Phrase.dropWhile_ne (noPoint hn)] at hdropped
    exact String.toList_injective (List.cons.inj hdropped).2
  cases m
  cases n
  exact congr (congrArg TableName.mk hdatabase) htable

theorem JoinKind.isWord_token {kind : JoinKind} (h : kind.Known) : IsWord kind.token.inline := by
  cases kind with
  | other text => exact absurd h (Vocabulary.other_unknown _ text)
  | _ => decide

theorem JoinKind.token_injective {k k' : JoinKind} (h : k.Known) (h' : k'.Known)
    (heq : k.token.inline = k'.token.inline) : k = k' := by
  cases k with
  | other text => exact absurd h (Vocabulary.other_unknown _ text)
  | inner =>
    cases k' with
    | other text => exact absurd h' (Vocabulary.other_unknown _ text)
    | inner => rfl
    | left => exact absurd heq (by decide)
  | left =>
    cases k' with
    | other text => exact absurd h' (Vocabulary.other_unknown _ text)
    | inner => exact absurd heq (by decide)
    | left => rfl

/-- The count of an accepted request is a whole number. -/
theorem toInt?_of_safe {count : Binary64} (h : ∃ n, count.safeInteger? = some n) :
    ∃ n, count.toInt? = some n ∧ count.text = intText n := by
  obtain ⟨n, hn⟩ := h
  obtain ⟨hint, hsafe⟩ := Binary64.safeInteger?_eq_some_iff.mp hn
  exact ⟨n, hint, Binary64.text_of_toInt? hint hsafe⟩

theorem count_injective {count count' : Binary64} (h : ∃ n, count.safeInteger? = some n)
    (h' : ∃ n, count'.safeInteger? = some n)
    (heq : count.toInt?.elim "" intText = count'.toInt?.elim "" intText) :
    count.toInt? = count'.toInt? := by
  obtain ⟨m, hm, _⟩ := toInt?_of_safe h
  obtain ⟨n, hn, _⟩ := toInt?_of_safe h'
  rw [hm, hn] at heq ⊢
  rw [intText_injective heq]

/-! ## 3. Regular clauses -/

namespace Clause.Regular

variable {c c' : Clause}

theorem isWord_verb (h : c.Regular) : IsWord c.normal.verb := by
  obtain ⟨_, hparts⟩ := h
  cases c with
  | select columns => exact (by decide : IsWord "project")
  | extend columns => exact (by decide : IsWord "extend")
  | rename columns => exact (by decide : IsWord "rename")
  | filter predicate => exact (by decide : IsWord "filter")
  | groupBy keys selections having => exact (by decide : IsWord "groupBy")
  | orderBy terms => exact (by decide : IsWord "sort")
  | limit count => exact (by decide : IsWord "take")
  | offset count => exact (by decide : IsWord "drop")
  | join other kind condition => exact (by decide : IsWord "join")
  | distinct columns => exact absurd hparts id
  | foreign kind source => exact absurd hparts id

theorem groupBy_parts {keys selections : List Expr} {having : Option Expr}
    (h : (Clause.groupBy keys selections having).Regular) :
    (∀ e ∈ keys, e.Regular) ∧ (∀ e ∈ selections, e.Regular) ∧
      ∀ e ∈ having.toList, e.Regular := by
  refine ⟨fun e he => h.exprs e ?_, fun e he => h.exprs e ?_, fun e he => h.exprs e ?_⟩
  · exact List.mem_append_left _ (List.mem_append_left _ he)
  · exact List.mem_append_left _ (List.mem_append_right _ he)
  · exact List.mem_append_right _ he

/-- The terms of an ordering are written as the nodes that stand for them. -/
theorem orderBy_normal (terms : List OrderTerm) :
    (Clause.orderBy terms).normal = .orderBy ((terms.map OrderTerm.toExpr).map Expr.normal) := by
  rw [List.map_map]
  rfl

theorem arguments_wellFormed (h : c.Regular) : ∀ p ∈ c.normal.arguments, p.WellFormed := by
  have listed {es : List Expr} (hes : ∀ e ∈ es, e.Regular) :
      (Phrase.listed (Reading.phrases (es.map Expr.normal))).WellFormed :=
    .listed (Expr.Regular.phrases_wellFormed hes)
  cases c with
  | select columns => exact List.forall_mem_singleton.mpr (listed h.exprs)
  | extend columns => exact List.forall_mem_singleton.mpr (listed h.exprs)
  | rename columns => exact List.forall_mem_singleton.mpr (listed h.exprs)
  | filter predicate =>
    have hpredicate := h.exprs predicate List.mem_cons_self
    exact List.forall_mem_singleton.mpr hpredicate.phrase_wellFormed
  | groupBy keys selections having =>
    obtain ⟨hkeys, hselections, hhaving⟩ := h.groupBy_parts
    rw [normal, ClauseReading.arguments, Option.toList_map]
    refine List.forall_mem_cons.mpr ⟨listed hkeys, ?_⟩
    exact List.forall_mem_cons.mpr
      ⟨listed hselections, Expr.Regular.phrases_wellFormed hhaving⟩
  | orderBy terms =>
    rw [orderBy_normal]
    exact List.forall_mem_singleton.mpr (listed h.exprs)
  | limit count =>
    obtain ⟨n, hn, _⟩ := toInt?_of_safe h.parts
    rw [normal, hn]
    exact List.forall_mem_singleton.mpr (.word (isWord_intText n))
  | offset count =>
    obtain ⟨n, hn, _⟩ := toInt?_of_safe h.parts
    rw [normal, hn]
    exact List.forall_mem_singleton.mpr (.word (isWord_intText n))
  | join other kind condition =>
    obtain ⟨hother, hkind⟩ := h.parts
    have hcondition := h.exprs condition List.mem_cons_self
    refine List.forall_mem_cons.mpr ⟨.word hother.isWord, ?_⟩
    refine List.forall_mem_cons.mpr ⟨.word (JoinKind.isWord_token hkind), ?_⟩
    exact List.forall_mem_singleton.mpr hcondition.phrase_wellFormed
  | distinct columns => exact absurd h.parts id
  | foreign kind source => exact absurd h.parts id

/-- **A regular clause is written as a well-formed phrase.** -/
theorem phrase_wellFormed (h : c.Regular) : c.normal.phrase.WellFormed :=
  .applied h.isWord_verb h.arguments_wellFormed

/-- The verb of a regular clause tells its kind. -/
theorem ofVerb_verb (h : c.Regular) : ClauseKind.ofVerb c.normal.verb = c.kind? := by
  cases c with
  | distinct columns => exact absurd h.parts id
  | _ => rfl

/-- Lists that are the only argument of a clause. -/
theorem listed_injective {es es' : List Expr} (h : ∀ e ∈ es, e.Regular) (h' : ∀ e ∈ es', e.Regular)
    (heq : [Phrase.listed (Reading.phrases (es.map Expr.normal))] =
      [.listed (Reading.phrases (es'.map Expr.normal))]) :
    es.map Expr.normal = es'.map Expr.normal :=
  Expr.Regular.map_normal_injective h h' (Phrase.listed.inj (List.cons.inj heq).1)

theorem filter_injective {predicate predicate' : Expr} (h : (filter predicate).Regular)
    (h' : (filter predicate').Regular)
    (heq : (filter predicate).normal.arguments = (filter predicate').normal.arguments) :
    (filter predicate).normal = (filter predicate').normal := by
  have hpredicate := h.exprs predicate List.mem_cons_self
  have hpredicate' := h'.exprs predicate' List.mem_cons_self
  exact congrArg ClauseReading.filter
    (hpredicate.normal_injective hpredicate' (List.cons.inj heq).1)

theorem groupBy_injective {keys keys' selections selections' : List Expr}
    {having having' : Option Expr} (h : (groupBy keys selections having).Regular)
    (h' : (groupBy keys' selections' having').Regular)
    (heq : (groupBy keys selections having).normal.arguments =
      (groupBy keys' selections' having').normal.arguments) :
    (groupBy keys selections having).normal = (groupBy keys' selections' having').normal := by
  obtain ⟨hkeys, hselections, hhaving⟩ := h.groupBy_parts
  obtain ⟨hkeys', hselections', hhaving'⟩ := h'.groupBy_parts
  simp only [normal, ClauseReading.arguments, Option.toList_map, List.cons.injEq,
    Phrase.listed.injEq] at heq
  obtain ⟨heqk, heqs, heqh⟩ := heq
  have hcondition : having.map Expr.normal = having'.map Expr.normal := by
    have hlist := Expr.Regular.map_normal_injective hhaving hhaving' heqh
    rw [← Option.toList_map, ← Option.toList_map] at hlist
    simpa using congrArg List.head? hlist
  rw [normal, normal, Expr.Regular.map_normal_injective hkeys hkeys' heqk,
    Expr.Regular.map_normal_injective hselections hselections' heqs, hcondition]

theorem join_injective {other other' : TableName} {kind kind' : JoinKind}
    {condition condition' : Expr} (h : (join other kind condition).Regular)
    (h' : (join other' kind' condition').Regular)
    (heq : (join other kind condition).normal.arguments =
      (join other' kind' condition').normal.arguments) :
    (join other kind condition).normal = (join other' kind' condition').normal := by
  obtain ⟨hother, hknown⟩ := h.parts
  obtain ⟨hother', hknown'⟩ := h'.parts
  have hcondition := h.exprs condition List.mem_cons_self
  have hcondition' := h'.exprs condition' List.mem_cons_self
  simp only [normal, ClauseReading.arguments, List.cons.injEq, Phrase.word.injEq,
    and_true] at heq
  obtain ⟨heqo, heqk, heqc⟩ := heq
  rw [normal, normal, TableName.text_injective hother hother' heqo,
    JoinKind.token_injective hknown hknown' heqk, hcondition.normal_injective hcondition' heqc]

/-- **Regular clauses with one phrase have one reading.** -/
theorem normal_injective (h : c.Regular) (h' : c'.Regular)
    (heq : c.normal.phrase = c'.normal.phrase) : c.normal = c'.normal := by
  obtain ⟨hverb, hargs⟩ := Phrase.applied.inj heq
  -- the verbs agree, so both clauses are of one kind and only their arguments are left
  have hkind : c.kind? = c'.kind? := by
    rw [← h.ofVerb_verb, hverb, h'.ofVerb_verb]
  match c, c', hkind, h, h', hargs with
  | select _, select _, _, h, h', hargs =>
    exact congrArg ClauseReading.select (listed_injective h.exprs h'.exprs hargs)
  | extend _, extend _, _, h, h', hargs =>
    exact congrArg ClauseReading.extend (listed_injective h.exprs h'.exprs hargs)
  | rename _, rename _, _, h, h', hargs =>
    exact congrArg ClauseReading.rename (listed_injective h.exprs h'.exprs hargs)
  | filter _, filter _, _, h, h', hargs => exact filter_injective h h' hargs
  | groupBy _ _ _, groupBy _ _ _, _, h, h', hargs => exact groupBy_injective h h' hargs
  | orderBy _, orderBy _, _, h, h', hargs =>
    rw [orderBy_normal, orderBy_normal] at hargs ⊢
    exact congrArg ClauseReading.orderBy (listed_injective h.exprs h'.exprs hargs)
  | limit _, limit _, _, h, h', hargs =>
    have hword := Phrase.word.inj (List.cons.inj hargs).1
    exact congrArg ClauseReading.limit (count_injective h.parts h'.parts hword)
  | offset _, offset _, _, h, h', hargs =>
    have hword := Phrase.word.inj (List.cons.inj hargs).1
    exact congrArg ClauseReading.offset (count_injective h.parts h'.parts hword)
  | join _ _ _, join _ _ _, _, h, h', hargs => exact join_injective h h' hargs
  | distinct _, _, _, h, _, _ => exact absurd h.parts id
  | foreign _ _, _, _, h, _, _ => exact absurd h.parts id

end Clause.Regular

/-! ## 4. Lines -/

theorem toList_lines_cons (r : ClauseReading) (rest : List ClauseReading) :
    (ClauseReading.lines (r :: rest)).toList =
      "\n->".toList ++ (r.phrase.text.toList ++ (ClauseReading.lines rest).toList) := by
  simp [ClauseReading.lines]

/-- The next line, or the end, closes a phrase. -/
theorem closing_lines (rs : List ClauseReading) :
    Phrase.Closing (ClauseReading.lines rs).toList := by
  cases rs with
  | nil => exact Phrase.closing_nil
  | cons r rest =>
    rw [toList_lines_cons]
    exact Phrase.closing_cons (by decide) (by decide) (by decide) _

/-- **Lines tell the readings of their clauses.** -/
theorem lines_injective {cs cs' : List Clause} (h : ∀ c ∈ cs, c.Regular)
    (h' : ∀ c ∈ cs', c.Regular)
    (heq : (ClauseReading.lines (cs.map Clause.normal)).toList =
      (ClauseReading.lines (cs'.map Clause.normal)).toList) :
    cs.map Clause.normal = cs'.map Clause.normal := by
  -- the first phrases agree and are closed alike, so what is left of both texts agrees again
  induction cs generalizing cs' with
  | nil =>
    cases cs' with
    | nil => rfl
    | cons c' rest' =>
      rw [List.map_cons, toList_lines_cons] at heq
      exact absurd heq (by simp [ClauseReading.lines])
  | cons c rest ih =>
    cases cs' with
    | nil =>
      rw [List.map_cons, toList_lines_cons] at heq
      exact absurd heq (by simp [ClauseReading.lines])
    | cons c' rest' =>
      rw [List.map_cons, List.map_cons, toList_lines_cons, toList_lines_cons,
        List.append_right_inj] at heq
      have hc := h c List.mem_cons_self
      have hc' := h' c' List.mem_cons_self
      obtain ⟨hphrase, hrest⟩ := Phrase.text_append_injective hc.phrase_wellFormed
        hc'.phrase_wellFormed (closing_lines _) (closing_lines _) heq
      rw [List.map_cons, List.map_cons, hc.normal_injective hc' hphrase,
        ih (fun d hd => h d (List.mem_cons_of_mem _ hd))
          (fun d hd => h' d (List.mem_cons_of_mem _ hd)) hrest]

/-! ## 5. What the dialect writes -/

/-- The dialect that writes the terms of an ordering. -/
def Arrow.withTerms : Arrow where
  orderStyle := .term

namespace Arrow

theorem operation_eq (verb : String) (args : List Phrase) :
    operation verb (", ".intercalate (Phrase.texts args)) =
      "\n->" ++ (Phrase.applied verb args).text := by
  simp [operation, Phrase.text, String.append_assoc]

theorem listText_eq (es : List Expr) (h : ∀ e ∈ es, e.Regular) :
    withTerms.listText es =
      .ok (", ".intercalate (Phrase.texts (Reading.phrases (es.map Expr.normal)))) := by
  have htexts : es.map (fun e => e.normal.phrase.text) =
      Phrase.texts (Reading.phrases (es.map Expr.normal)) := by
    rw [Phrase.texts_eq, Reading.phrases_eq, List.map_map, List.map_map]
    rfl
  rw [listText, Expr.Regular.fragments_eq fun e he => (h e he).fragment_eq rfl, htexts]
  simp [Fragment.listed, Function.comp_def]

theorem inlineText_eq {e : Expr} (h : e.Regular) :
    withTerms.inlineText e = .ok e.normal.phrase.text := by
  rw [inlineText, h.fragment_eq rfl]
  rfl

theorem termTexts_eq {terms : List OrderTerm} (h : ∀ t ∈ terms, t.toExpr.Regular) :
    withTerms.termTexts terms =
      .ok (Phrase.texts (Reading.phrases ((terms.map OrderTerm.toExpr).map Expr.normal))) := by
  induction terms with
  | nil => rfl
  | cons t rest ih =>
    have hterm : t.term.Regular := by
      cases h t List.mem_cons_self with
      | ordering _ hterm => exact hterm
    rw [termTexts, ih fun u hu => h u (List.mem_cons_of_mem _ hu)]
    show (withTerms.inlineText t.term >>= _) >>= _ = _
    rw [inlineText_eq hterm]
    rfl

theorem groupingText_eq {keys selections : List Expr} {having : Option Expr}
    (h : (Clause.groupBy keys selections having).Regular) :
    withTerms.groupingText keys selections having =
      .ok (", ".intercalate
        (Phrase.texts (Clause.groupBy keys selections having).normal.arguments)) := by
  obtain ⟨hkeys, hselections, hhaving⟩ := h.groupBy_parts
  rw [groupingText, listText_eq keys hkeys, listText_eq selections hselections]
  cases having with
  | none =>
    show Except.ok (bracketed _ ++ ", " ++ bracketed _ ++ "") = _
    rw [String.append_empty]
    rfl
  | some having =>
    rw [havingText, inlineText_eq (hhaving having List.mem_cons_self)]
    show Except.ok (bracketed _ ++ ", " ++ bracketed _ ++ (", " ++ having.normal.phrase.text)) = _
    rw [← String.append_assoc]
    rfl

/-- **A regular clause is written as its phrase behind an arrow.** -/
theorem clauseText_eq {c : Clause} (h : c.Regular) :
    withTerms.clauseText c = .ok ("\n->" ++ c.normal.phrase.text) := by
  cases c with
  | select columns =>
    rw [clauseText, listText_eq columns h.exprs, ClauseReading.phrase, ← operation_eq]
    rfl
  | extend columns =>
    rw [clauseText, listText_eq columns h.exprs, ClauseReading.phrase, ← operation_eq]
    rfl
  | rename columns =>
    rw [clauseText, listText_eq columns h.exprs, ClauseReading.phrase, ← operation_eq]
    rfl
  | filter predicate =>
    rw [clauseText, inlineText_eq (h.exprs predicate List.mem_cons_self), ClauseReading.phrase,
      ← operation_eq]
    rfl
  | groupBy keys selections having =>
    rw [clauseText, groupingText_eq h, ClauseReading.phrase, ← operation_eq]
    rfl
  | orderBy terms =>
    have hterms : ∀ t ∈ terms, t.toExpr.Regular := fun t ht =>
      h.exprs _ (List.mem_map_of_mem ht)
    rw [clauseText, termTexts_eq hterms, Clause.Regular.orderBy_normal, ClauseReading.phrase,
      ← operation_eq]
    rfl
  | limit count =>
    obtain ⟨n, hn, htext⟩ := toInt?_of_safe h.parts
    rw [ClauseReading.phrase, Clause.normal, hn, ← operation_eq]
    show Except.ok ("\n->" ++ ("take" ++ "(" ++ count.text ++ ")")) = _
    rw [htext]
    rfl
  | offset count =>
    obtain ⟨n, hn, htext⟩ := toInt?_of_safe h.parts
    rw [ClauseReading.phrase, Clause.normal, hn, ← operation_eq]
    show Except.ok ("\n->" ++ ("drop" ++ "(" ++ count.text ++ ")")) = _
    rw [htext]
    rfl
  | join other kind condition =>
    rw [clauseText, inlineText_eq (h.exprs condition List.mem_cons_self), ClauseReading.phrase,
      ← operation_eq]
    rfl
  | distinct columns => exact absurd h.parts id
  | foreign kind source => exact absurd h.parts id

theorem suffixTexts_eq {cs : List Clause} (h : ∀ c ∈ cs, c.Regular) :
    suffixTexts withTerms.renderSuffix cs = .ok (ClauseReading.lines (cs.map Clause.normal)) := by
  induction cs with
  | nil => rfl
  | cons c rest ih =>
    rw [suffixTexts, renderSuffix, clauseText_eq (h c List.mem_cons_self),
      ih fun d hd => h d (List.mem_cons_of_mem _ hd)]
    rfl

/-- **A pipeline with regular clauses is written as its source and its lines.** -/
theorem render_eq {p : Pipeline} (h : ∀ c ∈ p.clauses, c.Regular) :
    (p.render withTerms.renderer).result =
      .ok (p.source.text ++ ClauseReading.lines (p.clauses.map Clause.normal)) := by
  rw [render_result, render, suffixTexts_eq h]
  rfl

end Arrow

/-! ## 6. Pipelines -/

/-- A pipeline that was built on a made table: by accepted requests that joined made tables and
    kept distinct rows nowhere, of well-formed nodes. -/
structure Pipeline.Built (p : Pipeline) : Prop where
  accepted : ∃ t listening base given, t.Made ∧ Pipeline.ofTable t listening = .ok base ∧
    Accepts base given p ∧
    ∀ request ∈ given, ∀ other, request.joined? = some other → other.Made
  noDistinct : ∀ c ∈ p.clauses, c.kind? ≠ some .distinct
  wellFormed : ∀ c ∈ p.clauses, ∀ e ∈ c.exprs, e.WellFormed

namespace Pipeline.Built

variable {p : Pipeline}

theorem regular (built : p.Built) : p.source.Identified ∧ ∀ c ∈ p.clauses, c.Regular := by
  obtain ⟨t, listening, base, given, made, hbase, haccepts, joined⟩ := built.accepted
  have named := made.wellNamed
  rw [ofTable_wellNamed named listening] at hbase
  cases hbase
  refine ⟨?_, ?_⟩
  · rw [haccepts.keeps.1]
    exact ⟨named.database, named.table⟩
  · have origin : Schema.Identified ⟨t.columns, named.distinct⟩ := fun n hn => named.columns n hn
    exact haccepts.regular rfl origin
      (fun request hrequest other hother => (joined request hrequest other hother).wellNamed)
      built.wellFormed built.noDistinct

/-- A pipeline of the people. -/
theorem of_people {given : List ClauseRequest} (h : Accepts .ofPeople given p)
    (joined : ∀ request ∈ given, ∀ other ∈ request.joined?, other = .teams)
    (noDistinct : ∀ c ∈ p.clauses, c.kind? ≠ some .distinct)
    (wellFormed : ∀ c ∈ p.clauses, ∀ e ∈ c.exprs, e.WellFormed) : p.Built where
  accepted := by
    refine ⟨.people, true, .ofPeople, given, Table.people_made, rfl, h, ?_⟩
    intro request hrequest other hother
    rw [joined request hrequest other hother]
    exact Table.teams_made
  noDistinct := noDistinct
  wellFormed := wellFormed

end Pipeline.Built

/-- **The text of a pipeline is unambiguous.** Two pipelines that were built on made tables are
    written, and they are written alike iff they start at the same table and their clauses have the
    same readings: strings and dates are told exactly, counts as whole numbers. -/
theorem render_unambiguous {p q : Pipeline} (hp : p.Built) (hq : q.Built) :
    ∃ x y, (p.render ({ orderStyle := .term } : Arrow).renderer).result = .ok x ∧
      (q.render ({ orderStyle := .term } : Arrow).renderer).result = .ok y ∧
      (x = y ↔
        p.source = q.source ∧ p.clauses.map Clause.normal = q.clauses.map Clause.normal) := by
  obtain ⟨hsource, hclauses⟩ := hp.regular
  obtain ⟨hsource', hclauses'⟩ := hq.regular
  refine ⟨_, _, Arrow.render_eq hclauses, Arrow.render_eq hclauses', ?_⟩
  constructor
  · intro h
    have hchars : (Phrase.word p.source.text).text.toList ++
          (ClauseReading.lines (p.clauses.map Clause.normal)).toList =
        (Phrase.word q.source.text).text.toList ++
          (ClauseReading.lines (q.clauses.map Clause.normal)).toList := by
      have := congrArg String.toList h
      rwa [String.toList_append, String.toList_append] at this
    obtain ⟨hword, hlines⟩ := Phrase.text_append_injective (.word hsource.isWord)
      (.word hsource'.isWord) (closing_lines _) (closing_lines _) hchars
    refine ⟨TableName.text_injective hsource hsource' (Phrase.word.inj hword), ?_⟩
    exact lines_injective hclauses hclauses' hlines
  · intro h
    obtain ⟨hplace, hreadings⟩ := h
    rw [hplace, hreadings]

/-- The people with the given name. -/
def filterByName (name : String) : ClauseRequest :=
  .filter (.binary (.comparison .equal) (.column "name") (.literal (.string name)))

/-- The people with their teams. -/
def joinTeams : ClauseRequest :=
  .join .teams "left" (.binary (.comparison .equal) (.column "team") (.column "team_id"))

/-- The parity of ages by the operator. -/
def parityByOperator : ClauseRequest :=
  .extend [.node (.named "parity" (.binary (.arithmetic .remainder) (.column "age")
    (.literal (.integer ⟨0x4000000000000000⟩))))]

/-- The parity of ages by the function. -/
def parityByFunction : ClauseRequest :=
  .extend [.node (.named "parity" (.call .modulo [.column "age", .literal (.long 2)]))]

/-- A name with a quote and a backslash that, written without escapes, would end the filter and go
    on with a join is told from a filter and a join. The two ways to ask for a parity are not told
    apart. -/
theorem render_unambiguous_quoted :
    let quoted := "A\x27))\n->join(company.teams, LEFT_OUTER, (\\ == team_id))"
    ∃ p q r, Accepts .ofPeople [filterByName quoted, parityByOperator] p ∧
      Accepts .ofPeople [filterByName quoted, parityByFunction] q ∧
      Accepts .ofPeople [filterByName "A", joinTeams, parityByFunction] r ∧
      p.Built ∧ q.Built ∧ r.Built ∧
      ∃ x y, (p.render ({ orderStyle := .term } : Arrow).renderer).result = .ok x ∧
        (q.render ({ orderStyle := .term } : Arrow).renderer).result = .ok x ∧
        (r.render ({ orderStyle := .term } : Arrow).renderer).result = .ok y ∧ x ≠ y := by
  intro quoted
  have hp : Accepts .ofPeople [filterByName quoted, parityByOperator] _ :=
    .step (.single rfl) rfl
  have hq : Accepts .ofPeople [filterByName quoted, parityByFunction] _ :=
    .step (.single rfl) rfl
  have hr : Accepts .ofPeople [filterByName "A", joinTeams, parityByFunction] _ :=
    .step (.step (.single rfl) rfl) rfl
  have filtered (name : String) : ∀ e ∈ [Expr.binary (.comparison .equal) (.column "name")
      (.literal (.string name))], e.WellFormed :=
    List.forall_mem_singleton.mpr (.binary .column (.literal (.plain (.text name) rfl)))
  have byOperator : Expr.WellFormed (.named "parity" (.binary (.arithmetic .remainder)
      (.column "age") (.literal (.integer ⟨0x4000000000000000⟩)))) :=
    .named rfl (.binary .column (.literal (.plain (.number ⟨0x4000000000000000⟩) rfl)))
  have byFunction : Expr.WellFormed
      (.named "parity" (.call .modulo [.column "age", .literal (.long 2)])) :=
    .named rfl (.call (List.forall_mem_cons.mpr
      ⟨.column, List.forall_mem_singleton.mpr (.literal (.plain (.wholeNumber 2) rfl))⟩))
  have builtp := Pipeline.Built.of_people hp (by decide) (by decide) (List.forall_mem_cons.mpr
    ⟨filtered quoted, List.forall_mem_singleton.mpr (List.forall_mem_singleton.mpr byOperator)⟩)
  have builtq := Pipeline.Built.of_people hq (by decide) (by decide) (List.forall_mem_cons.mpr
    ⟨filtered quoted, List.forall_mem_singleton.mpr (List.forall_mem_singleton.mpr byFunction)⟩)
  have builtr := Pipeline.Built.of_people hr (by decide) (by decide) (List.forall_mem_cons.mpr
    ⟨filtered "A", List.forall_mem_cons.mpr
      ⟨List.forall_mem_singleton.mpr (.binary .column .column),
        List.forall_mem_singleton.mpr (List.forall_mem_singleton.mpr byFunction)⟩⟩)
  refine ⟨_, _, _, hp, hq, hr, builtp, builtq, builtr, ?_⟩
  obtain ⟨x, x', hx, hx', hsame⟩ := render_unambiguous builtp builtq
  obtain ⟨x'', y, hx'', hy, hother⟩ := render_unambiguous builtp builtr
  obtain rfl : x = x'' := Except.ok.inj (hx.symm.trans hx'')
  obtain rfl : x = x' := hsame.mpr ⟨rfl, rfl⟩
  refine ⟨x, y, hx, hx', hy, fun e => ?_⟩
  have hlength := congrArg List.length (hother.mp e).2
  exact absurd hlength (by decide)

end QueryPipeline
