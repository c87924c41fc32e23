import QueryPipeline.Proofs.Coverage
import QueryPipeline.Proofs.Replay

/-!
# Branches

How the clauses and the text of a pipeline grow along a branch of a session.

* `Schema.contribution` are the clauses that a request contributes: the one it resolves to, an
  offset and a limit for a page, and none if it is refused;
* `Session.Branch` says which requests led from one pipeline of a run to another one, by their
  numbers; the requests made elsewhere in the meantime leave no trace in it;
* `Arrow.render_append`: more clauses add their texts, and a text that failed fails as before;
* **`render_follows`**: along a branch the clauses are those of the accepted requests, and the text
  is continued by theirs.
-/

namespace QueryPipeline

/-! ## 1. Contributions -/

/-- A count of rows: a safe integer that is not negative. -/
def Binary64.isCount (v : Binary64) : Bool :=
  match v.safeInteger? with
  | some n => decide (0 ≤ n)
  | none => false

theorem requireCount_eq (count : Binary64) (what : String) :
    requireCount count what =
      if count.isCount then .ok () else refuse (.invalidValue count.text (.notACount what)) := by
  unfold requireCount Binary64.isCount
  cases count.safeInteger? with
  | none => rfl
  | some n => simp only [decide_eq_true_eq]

/-- The clauses that a request contributes to a pipeline with the given schema. -/
def Schema.contribution (s : Schema) : Request → List Clause
  | .clause request =>
    match s.resolve request with
    | .ok r => [r.clause]
    | .error _ => []
  | .page offset limit =>
    if offset.isCount && limit.isCount then [.offset offset, .limit limit] else []

namespace Pipeline

variable {p q : Pipeline}

/-- The pipeline to go on with after a request: the one that it gives, or the same one if it is
    refused. -/
def next (p : Pipeline) (request : Request) : Pipeline :=
  match (p.perform request).result with
  | .ok q => q
  | .error _ => p

/-- The pipeline after several requests, each made to the one that the request before it left. -/
def follow (p : Pipeline) (asked : List Request) : Pipeline := asked.foldl next p

/-- The clauses that several requests contribute, one after the other. -/
def contributions (p : Pipeline) : List Request → List Clause
  | [] => []
  | request :: rest => p.schema.contribution request ++ (p.next request).contributions rest

/-- A request for a number of rows is accepted iff the number is a count. -/
theorem apply_count {request : ClauseRequest} {clause : Clause} {count : Binary64} {what : String}
    (checks : ∀ s : Schema, s.resolve request = do
      requireCount count what
      return ⟨clause, s⟩) (p : Pipeline) :
    (p.apply request).result =
      if count.isCount then .ok (p.extended ⟨clause, p.schema⟩)
      else .error (.refused ⟨.invalidValue count.text (.notACount what),
        some request.kind.name⟩) := by
  unfold apply
  rw [checks, requireCount_eq]
  by_cases h : count.isCount = true
  · rw [if_pos h, if_pos h]
    rfl
  · rw [if_neg h, if_neg h]
    rfl

theorem apply_offset (p : Pipeline) (offset : Binary64) :
    (p.apply (.offset offset)).result =
      if offset.isCount then .ok (p.extended ⟨.offset offset, p.schema⟩)
      else .error (.refused ⟨.invalidValue offset.text (.notACount "offset"),
        some ClauseKind.offset.name⟩) :=
  apply_count (fun _ => rfl) p

theorem apply_limit (p : Pipeline) (limit : Binary64) :
    (p.apply (.limit limit)).result =
      if limit.isCount then .ok (p.extended ⟨.limit limit, p.schema⟩)
      else .error (.refused ⟨.invalidValue limit.text (.notACount "limit"),
        some ClauseKind.limit.name⟩) :=
  apply_count (fun _ => rfl) p

/-- **What becomes of a page**: its offset is checked before its limit. -/
theorem perform_page (p : Pipeline) (offset limit : Binary64) :
    (p.perform (.page offset limit)).result =
      if offset.isCount then
        if limit.isCount then
          .ok ((p.extended ⟨.offset offset, p.schema⟩).extended ⟨.limit limit, p.schema⟩)
        else .error (.refused ⟨.invalidValue limit.text (.notACount "limit"),
          some ClauseKind.limit.name⟩)
      else .error (.refused ⟨.invalidValue offset.text (.notACount "offset"),
        some ClauseKind.offset.name⟩) := by
  have hoffset := p.apply_offset offset
  simp only [perform, Logged.andThen]
  by_cases ho : offset.isCount = true
  · rw [if_pos ho] at hoffset
    rw [if_pos ho, hoffset]
    have hlimit := (p.extended ⟨.offset offset, p.schema⟩).apply_limit limit
    rwa [schema_extended] at hlimit
  · rw [if_neg ho] at hoffset
    rw [if_neg ho, hoffset]

/-- A page is accepted iff both of its numbers are counts, and is stored as two clauses. -/
theorem perform_page_eq_ok {offset limit : Binary64} :
    (p.perform (.page offset limit)).result = .ok q ↔
      (offset.isCount = true ∧ limit.isCount = true) ∧
        q = (p.extended ⟨.offset offset, p.schema⟩).extended ⟨.limit limit, p.schema⟩ := by
  rw [perform_page]
  by_cases ho : offset.isCount = true
  · by_cases hl : limit.isCount = true
    · simp [ho, hl, eq_comm]
    · simp [ho, hl]
  · simp [ho]

/-- **An accepted request adds what it contributes**, at least one clause. -/
theorem clauses_of_perform {request : Request} (h : (p.perform request).result = .ok q) :
    q.clauses = p.clauses ++ p.schema.contribution request ∧
      p.schema.contribution request ≠ [] := by
  cases request with
  | clause request =>
    obtain ⟨r, hr, rfl⟩ := apply_eq_ok.mp h
    simp only [Schema.contribution, hr]
    exact ⟨clauses_extended p r, List.cons_ne_nil _ _⟩
  | page offset limit =>
    obtain ⟨⟨hoffset, hlimit⟩, rfl⟩ := perform_page_eq_ok.mp h
    simp [Schema.contribution, hoffset, hlimit]

/-- **A refused request contributes nothing.** -/
theorem contribution_of_refused {request : Request} {failure : Failure}
    (h : (p.perform request).result = .error failure) : p.schema.contribution request = [] := by
  cases request with
  | clause request =>
    cases hresolve : p.schema.resolve request with
    | error _ => simp only [Schema.contribution, hresolve]
    | ok r =>
      have haccepted : (p.perform (.clause request)).result = .ok (p.extended r) :=
        apply_eq_ok.mpr ⟨r, hresolve, rfl⟩
      rw [haccepted] at h
      cases h
  | page offset limit =>
    rw [Schema.contribution, if_neg]
    intro hcounts
    rw [perform_page_eq_ok.mpr ⟨Bool.and_eq_true_iff.mp hcounts, rfl⟩] at h
    cases h

theorem contribution_eq_nil_iff {request : Request} :
    p.schema.contribution request = [] ↔
      ∃ failure, (p.perform request).result = .error failure := by
  constructor
  · intro hnone
    cases h : (p.perform request).result with
    | error failure => exact ⟨failure, rfl⟩
    | ok q => exact absurd hnone (clauses_of_perform h).2
  · rintro ⟨failure, h⟩
    exact contribution_of_refused h

theorem clauses_next (p : Pipeline) (request : Request) :
    (p.next request).clauses = p.clauses ++ p.schema.contribution request := by
  unfold next
  cases h : (p.perform request).result with
  | ok q => exact (clauses_of_perform h).1
  | error failure => rw [contribution_of_refused h, List.append_nil]

theorem source_next (p : Pipeline) (request : Request) : (p.next request).source = p.source := by
  unfold next
  cases h : (p.perform request).result with
  | ok q => exact (Accepts.of_perform h).keeps.1
  | error failure => rfl

/-- **The clauses after several requests** are those from before and the contributions. -/
theorem clauses_follow (p : Pipeline) (asked : List Request) :
    (p.follow asked).clauses = p.clauses ++ p.contributions asked := by
  induction asked generalizing p with
  | nil => exact (List.append_nil _).symm
  | cons request rest ih =>
    show ((p.next request).follow rest).clauses = _
    rw [ih, clauses_next, contributions, List.append_assoc]

theorem source_follow (p : Pipeline) (asked : List Request) :
    (p.follow asked).source = p.source := by
  induction asked generalizing p with
  | nil => rfl
  | cons request rest ih => exact (ih (p.next request)).trans (source_next p request)

end Pipeline

/-! ## 2. Branches of a run -/

namespace Session

variable {s : Session} {p : Pipeline} {steps : List (Nat × Request)} {i j : Nat}
  {asked : List Request}

/-- The number of the pipeline to go on with after a request: that of the new one, or the same
    number if the request gave none. -/
def landing (s : Session) (target : Nat) (request : Request) : Nat :=
  match (s.step target request).2 with
  | some ⟨.ok _, _⟩ => s.pipelines.length
  | _ => target

/-- A branch of a run: by the requests `asked`, accepted or refused, one led from the pipeline with
    the number `i` to the one with the number `j`. -/
inductive Branch (s : Session) (i : Nat) : List (Nat × Request) → Nat → List Request → Prop
  | start {steps : List (Nat × Request)} (h : i < (s.run steps).pipelines.length) :
      Branch s i steps i []
  /-- A step of the run that the branch takes no notice of. -/
  | aside {steps : List (Nat × Request)} {j : Nat} {asked : List Request} (e : Nat × Request)
      (before : Branch s i steps j asked) : Branch s i (steps ++ [e]) j asked
  | ask {steps : List (Nat × Request)} {j : Nat} {asked : List Request} (request : Request)
      (before : Branch s i steps j asked) :
      Branch s i (steps ++ [(j, request)]) ((s.run steps).landing j request) (asked ++ [request])

/-- A pipeline keeps its number. -/
theorem getElem?_step (h : s.pipelines[i]? = some p) (target : Nat) (request : Request) :
    (s.step target request).1.pipelines[i]? = some p := by
  rcases s.step_cases target request with ⟨_, _, _, _, hstep⟩ | hstep
  · rw [hstep, List.getElem?_append_left (List.getElem?_eq_some_iff.mp h).1, h]
  · rw [hstep, h]

theorem landing_eq (h : s.pipelines[j]? = some p) (request : Request) :
    s.landing j request =
      match (p.perform request).result with
      | .ok _ => s.pipelines.length
      | .error _ => j := by
  unfold landing
  rw [step_answer, h, Option.map_some]
  cases p.perform request with
  | mk result log => cases result <;> rfl

/-- **Where a request leads**: the number to go on with is that of the pipeline to go on with. -/
theorem getElem?_landing (h : s.pipelines[j]? = some p) (request : Request) :
    (s.step j request).1.pipelines[s.landing j request]? = some (p.next request) := by
  rw [landing_eq h, Pipeline.next]
  cases hresult : (p.perform request).result with
  | error failure => exact getElem?_step h j request
  | ok q =>
    unfold step
    simp [h, hresult]

/-- **A branch follows its requests.** -/
theorem Branch.follow (branch : s.Branch i steps j asked) :
    ∃ p, (s.run steps).pipelines[i]? = some p ∧
      (s.run steps).pipelines[j]? = some (p.follow asked) := by
  induction branch with
  | start h => exact ⟨_, List.getElem?_eq_getElem h, List.getElem?_eq_getElem h⟩
  | aside e _ ih =>
    obtain ⟨p, hp, hq⟩ := ih
    rw [run_concat]
    exact ⟨p, getElem?_step hp _ _, getElem?_step hq _ _⟩
  | ask request _ ih =>
    obtain ⟨p, hp, hq⟩ := ih
    rw [run_concat]
    refine ⟨p, getElem?_step hp _ _, ?_⟩
    rw [Pipeline.follow, List.foldl_append]
    exact getElem?_landing hq request

/-- **Every pipeline of a run lies on a branch from the first one.** -/
theorem exists_branch (base : Pipeline) (h : j < ((start base).run steps).pipelines.length) :
    ∃ asked, (start base).Branch 0 steps j asked := by
  -- induction on the steps from the end: the last one leaves the numbers before it in place
  induction steps using List.reverseRecOn generalizing j with
  | nil =>
    obtain rfl : j = 0 := by simpa [run, start] using h
    exact ⟨[], .start h⟩
  | append_singleton steps e ih =>
    by_cases hold : j < ((start base).run steps).pipelines.length
    · obtain ⟨asked, hbranch⟩ := ih hold
      exact ⟨asked, .aside e hbranch⟩
    · -- the last step gave the pipeline: it was asked of one that lies on a branch
      obtain ⟨target, request⟩ := e
      rw [run_concat] at h
      rcases ((start base).run steps).step_cases target request with
        ⟨p, q, hp, hq, hstep⟩ | hstep
      · obtain ⟨asked, hbranch⟩ := ih (List.getElem?_eq_some_iff.mp hp).1
        have hlanding : ((start base).run steps).landing target request = j := by
          rw [hstep, List.length_append, List.length_singleton] at h
          rw [landing_eq hp, hq]
          show ((start base).run steps).pipelines.length = j
          omega
        exact ⟨asked ++ [request], hlanding ▸ .ask request hbranch⟩
      · rw [hstep] at h
        exact absurd h hold

end Session

/-! ## 3. Texts -/

theorem suffixTexts_append (suffix : Clause → Outcome String) (cs more : List Clause) :
    suffixTexts suffix (cs ++ more) = do
      let text ← suffixTexts suffix cs
      let rest ← suffixTexts suffix more
      return text ++ rest := by
  induction cs with
  | nil =>
    rw [List.nil_append, suffixTexts, Outcome.ok_bind]
    cases suffixTexts suffix more <;> simp
  | cons c cs ih =>
    rw [List.cons_append, suffixTexts, suffixTexts, ih]
    cases suffix c with
    | error failure => rfl
    | ok text =>
      cases suffixTexts suffix cs with
      | error failure => rfl
      | ok texts => cases suffixTexts suffix more <;> simp [String.append_assoc]

/-- Clauses that all have texts have these texts one after the other. -/
theorem suffixTexts_of_forall₂ {suffix : Clause → Outcome String} {cs : List Clause}
    {texts : List String} (h : List.Forall₂ (fun c text => suffix c = .ok text) cs texts) :
    suffixTexts suffix cs = .ok (String.join texts) := by
  induction h with
  | nil => rfl
  | cons hc _ ih => rw [suffixTexts, hc, ih, String.join_cons]; rfl

/-- Clauses of which one has no text fail for the first such clause. -/
theorem suffixTexts_of_error {suffix : Clause → Outcome String} {before after : List Clause}
    {c : Clause} {failure : Failure} (hbefore : ∀ b ∈ before, ∃ text, suffix b = .ok text)
    (hc : suffix c = .error failure) :
    suffixTexts suffix (before ++ c :: after) = .error failure := by
  induction before with
  | nil =>
    rw [List.nil_append, suffixTexts, hc]
    rfl
  | cons b rest ih =>
    obtain ⟨text, htext⟩ := hbefore b List.mem_cons_self
    rw [List.cons_append, suffixTexts, htext, ih fun b hb => hbefore b (List.mem_cons_of_mem _ hb)]
    rfl

namespace Arrow

variable {d : Arrow}

/-- **More clauses continue the text**, if there is one. -/
theorem render_append (d : Arrow) (source : TableName) (cs more : List Clause) :
    d.render source (cs ++ more) = do
      let text ← d.render source cs
      let rest ← suffixTexts d.renderSuffix more
      return text ++ rest := by
  rw [render, render, suffixTexts_append]
  cases suffixTexts d.renderSuffix cs with
  | error failure => rfl
  | ok text => cases suffixTexts d.renderSuffix more <;> simp [String.append_assoc]

theorem render_follow (d : Arrow) (p : Pipeline) (asked : List Request) :
    ((p.follow asked).render d.renderer).result = do
      let text ← (p.render d.renderer).result
      let rest ← suffixTexts d.renderSuffix (p.contributions asked)
      return text ++ rest := by
  rw [render_result, render_result, Pipeline.clauses_follow, Pipeline.source_follow, render_append]

end Arrow

/-! ## 4. The text along a branch -/

/-- **Rendering follows the accepted requests and nothing else.** Every pipeline of a run lies on a
    branch from the first one. Along any branch, the clauses at its end are those at its start and
    then the contributions of its requests, where just the refused ones contribute nothing. The text
    at the end is the text at the start and then the texts of these clauses; where the start has no
    text the end has none for the same reason, and otherwise for that of the first of these clauses
    without a text. -/
theorem render_follows (base : Pipeline) (steps : List (Nat × Request)) :
    (∀ j q, ((Session.start base).run steps).pipelines[j]? = some q →
      ∃ asked, (Session.start base).Branch 0 steps j asked) ∧
    ∀ i j asked, (Session.start base).Branch i steps j asked →
      ∃ p q, ((Session.start base).run steps).pipelines[i]? = some p ∧
        ((Session.start base).run steps).pipelines[j]? = some q ∧
        q.clauses = p.clauses ++ p.contributions asked ∧
        (∀ request, q.schema.contribution request = [] ↔
          ∃ failure, (q.perform request).result = .error failure) ∧
        ∀ d : Arrow,
          (∀ text texts, (p.render d.renderer).result = .ok text →
            List.Forall₂ (fun c suffix => d.renderSuffix c = .ok suffix) (p.contributions asked)
              texts →
            (q.render d.renderer).result = .ok (text ++ String.join texts)) ∧
          (∀ failure, (p.render d.renderer).result = .error failure →
            (q.render d.renderer).result = .error failure) ∧
          ∀ text before c after failure, (p.render d.renderer).result = .ok text →
            p.contributions asked = before ++ c :: after →
            (∀ b ∈ before, ∃ suffix, d.renderSuffix b = .ok suffix) →
            d.renderSuffix c = .error failure → (q.render d.renderer).result = .error failure := by
  refine ⟨fun j q hq => ?_, fun i j asked branch => ?_⟩
  · exact Session.exists_branch base (List.getElem?_eq_some_iff.mp hq).1
  · obtain ⟨p, hp, hq⟩ := branch.follow
    refine ⟨p, p.follow asked, hp, hq, p.clauses_follow asked,
      fun request => Pipeline.contribution_eq_nil_iff, fun d => ⟨?_, ?_, ?_⟩⟩
    · intro text texts htext htexts
      rw [Arrow.render_follow, htext, suffixTexts_of_forall₂ htexts]
      rfl
    · intro failure hfailure
      rw [Arrow.render_follow, hfailure]
      rfl
    · intro text before c after failure htext hsplit hbefore hc
      rw [Arrow.render_follow, htext, hsplit, suffixTexts_of_error hbefore hc]
      rfl

/-- A condition on rows. -/
def olderThanThirty : Expr :=
  .binary (.comparison .greater) (.column "age") (.literal (.long 30))

/-- A run in which a page is refused for its limit and a selection for its column, with requests to
    other pipelines in between. -/
def halfPageRun : List (Nat × Request) :=
  [(0, .clause (.filter olderThanThirty)),
    (0, .clause (.distinct [])),
    (1, .page ⟨0x4034000000000000⟩ ⟨0xBFF0000000000000⟩),
    (1, .clause (.select [.name "salary"])),
    (1, .page ⟨0x4034000000000000⟩ ⟨0x4024000000000000⟩),
    (2, .clause (.limit ⟨0x4024000000000000⟩))]

/-- The refused page leaves no offset behind, and what follows the distinct rows has no text for
    their reason. -/
theorem render_follows_halfPage :
    ∃ paged distinct limited : Pipeline,
      ((Session.start .ofPeople).run halfPageRun).pipelines[3]? = some paged ∧
      paged.clauses = [.filter olderThanThirty, .offset ⟨0x4034000000000000⟩,
        .limit ⟨0x4024000000000000⟩] ∧
      (paged.render ({} : Arrow).renderer).result =
        .ok "company.people\n->filter((age > 30))\n->drop(20)\n->take(10)" ∧
      ((Session.start .ofPeople).run halfPageRun).pipelines[2]? = some distinct ∧
      ((Session.start .ofPeople).run halfPageRun).pipelines[4]? = some limited ∧
      (distinct.render ({} : Arrow).renderer).result =
        .error (.refused ⟨.unsupported "Distinct" Arrow.name, some "Distinct"⟩) ∧
      (limited.render ({} : Arrow).renderer).result =
        (distinct.render ({} : Arrow).renderer).result := by
  have paging : (Session.start .ofPeople).Branch 0 halfPageRun 3
      [.clause (.filter olderThanThirty),
        .page ⟨0x4034000000000000⟩ ⟨0xBFF0000000000000⟩,
        .clause (.select [.name "salary"]),
        .page ⟨0x4034000000000000⟩ ⟨0x4024000000000000⟩] :=
    .aside _ <| .ask _ <| .ask _ <| .ask _ <| .aside _ <| .ask _ <|
      @Session.Branch.start _ _ [] (by decide)
  have limiting : (Session.start .ofPeople).Branch 2 halfPageRun 4
      [.clause (.limit ⟨0x4024000000000000⟩)] :=
    .ask _ <| @Session.Branch.start _ _ halfPageRun.dropLast (by decide)
  obtain ⟨_, follows⟩ := render_follows .ofPeople halfPageRun
  obtain ⟨base, paged, hbase, hpaged, hclauses, _, htexts⟩ := follows _ _ _ paging
  obtain ⟨distinct, limited, hdistinct, hlimited, _, _, hfailure⟩ := follows _ _ _ limiting
  obtain rfl : Pipeline.ofPeople = base := Option.some.inj hbase
  have hrefused : (distinct.render ({} : Arrow).renderer).result =
      .error (.refused ⟨.unsupported "Distinct" Arrow.name, some "Distinct"⟩) := by
    obtain rfl := Option.some.inj hdistinct
    rfl
  refine ⟨paged, distinct, limited, hpaged, hclauses, ?_, hdistinct, hlimited, hrefused, ?_⟩
  · exact (htexts {}).1 "company.people"
      ["\n->filter((age > 30))", "\n->drop(20)", "\n->take(10)"] rfl
      (.cons rfl (.cons rfl (.cons rfl .nil)))
  · rw [hrefused]
    exact (hfailure {}).2.1 _ hrefused

end QueryPipeline
