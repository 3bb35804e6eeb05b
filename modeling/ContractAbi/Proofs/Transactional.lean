import ContractAbi.Proofs.Resolution
import ContractAbi.Binding.Source

/-!
# Endpoints convert as units

Each endpoint is analyzed as a unit: when it fails, the analysis goes on from the progress it had
before the endpoint, with the same resolution context and the same names claimed, so a dropped
endpoint leaves no composite, alias or name behind.

Main statement: `analyze_transactional`. The strict analysis fails with an endpoint failure
exactly when the skipping analysis reports one, and then with the first it reports; and the
skipping analysis of a document is, failures apart, the strict analysis of the document without
the endpoints it dropped, so the two write the same bindings.
-/

namespace ContractAbi

/-- The members of `xs` whose mark is `b`, in order. -/
def withMark {α : Type} (b : Bool) : List α → List Bool → List α
  | x :: xs, m :: ms => if m = b then x :: withMark b xs ms else withMark b xs ms
  | _, _ => []

namespace Progress

variable {doc : AbiDocument} {p q : Progress} {e : EndpointDescriptor}

/-! ## One endpoint -/

/-- The skipping step is the strict one, except that a failure is recorded and the progress
before the endpoint kept. -/
theorem step_skipFailed (doc : AbiDocument) (p : Progress) (e : EndpointDescriptor) :
    p.step doc .skipFailed e =
      match p.step doc .strict e with
      | .ok q => .ok q
      | .error err => .ok { p with failures := p.failures ++ [⟨e.name, err⟩] } := by
  simp only [Progress.step]
  split
  rename_i r ctx _
  cases r with
  | error err => rfl
  | ok o =>
    cases o with
    | none => rfl
    | some c => cases hc : p.names.claim c <;> simp [hc, bind, Except.bind, pure, Except.pure]

/-- A strict step fails with the endpoint's name around the cause. -/
theorem step_strict_error {err : ConversionError} (h : p.step doc .strict e = .error err) :
    ∃ s, err = .inEndpoint e.name s := by
  simp only [Progress.step] at h
  split at h
  rename_i r ctx _
  cases r with
  | error s =>
    cases h
    exact ⟨s, rfl⟩
  | ok o =>
    cases o with
    | none => cases h
    | some c =>
      cases hc : p.names.claim c <;> simp [hc, bind, Except.bind, pure, Except.pure] at h
      exact ⟨_, h.symm⟩

/-- A strict step records no failure. -/
theorem step_strict_failures (h : p.step doc .strict e = .ok q) : q.failures = p.failures := by
  simp only [Progress.step] at h
  split at h
  rename_i r ctx _
  cases r with
  | error s => cases h
  | ok o =>
    cases o with
    | none =>
      cases h
      rfl
    | some c =>
      cases hc : p.names.claim c <;> simp [hc, bind, Except.bind, pure, Except.pure] at h
      rw [← h]

/-- A strict step reads nothing of the failures recorded so far. -/
theorem step_strict_withFailures (fs : List Failure) :
    ({ p with failures := fs } : Progress).step doc .strict e =
      (p.step doc .strict e).map fun q => { q with failures := fs } := by
  simp only [Progress.step]
  split
  rename_i r ctx _
  cases r with
  | error err => rfl
  | ok o =>
    cases o with
    | none => rfl
    | some c =>
      cases hc : p.names.claim c <;> simp [hc, bind, Except.bind, pure, Except.pure, Except.map]

/-! ## A run over the endpoints -/

/-- For each descriptor of a run from `p`, in order, whether converting it fails; after a failure
the run goes on from the progress before the descriptor. -/
def failMask (doc : AbiDocument) : Progress → List EndpointDescriptor → List Bool
  | _, [] => []
  | p, e :: es =>
    match p.step doc .strict e with
    | .ok q => false :: failMask doc q es
    | .error _ => true :: failMask doc p es

theorem failMask_length (doc : AbiDocument) :
    ∀ (p : Progress) (es : List EndpointDescriptor), (failMask doc p es).length = es.length
  | _, [] => rfl
  | p, e :: es => by
    unfold failMask
    split <;> simp [failMask_length]

theorem failMask_withFailures (doc : AbiDocument) (fs : List Failure) :
    ∀ (p : Progress) (es : List EndpointDescriptor),
      failMask doc { p with failures := fs } es = failMask doc p es
  | _, [] => rfl
  | p, e :: es => by
    simp only [failMask, step_strict_withFailures]
    cases h : p.step doc .strict e with
    | error err => simp [Except.map, failMask_withFailures doc fs p es]
    | ok q => simp [Except.map, failMask_withFailures doc fs q es]

theorem foldlM_strict_withFailures (doc : AbiDocument) (fs : List Failure) :
    ∀ (p : Progress) (es : List EndpointDescriptor),
      es.foldlM (step doc .strict) { p with failures := fs } =
        (es.foldlM (step doc .strict) p).map fun q => { q with failures := fs }
  | _, [] => rfl
  | p, e :: es => by
    simp only [List.foldlM_cons, step_strict_withFailures]
    cases h : p.step doc .strict e with
    | error err => rfl
    | ok q => exact foldlM_strict_withFailures doc fs q es

/-- A strict run fails with an endpoint failure. -/
theorem foldlM_strict_error (doc : AbiDocument) {err : ConversionError} :
    ∀ {p : Progress} {es : List EndpointDescriptor},
      es.foldlM (step doc .strict) p = .error err → ∃ n s, err = .inEndpoint n s
  | _, [], h => by cases h
  | p, e :: es, h => by
    rw [List.foldlM_cons] at h
    cases hs : p.step doc .strict e with
    | error err' =>
      rw [hs] at h
      cases h
      obtain ⟨s, rfl⟩ := step_strict_error hs
      exact ⟨e.name, s, rfl⟩
    | ok q =>
      rw [hs] at h
      exact foldlM_strict_error doc h

/-- The skipping run never fails. It ends where the strict run over the descriptors it keeps
ends, with one failure recorded per descriptor it drops, in order. -/
theorem foldlM_skipFailed (doc : AbiDocument) :
    ∀ (es : List EndpointDescriptor) (p : Progress),
      ∃ Q fs, (withMark false es (failMask doc p es)).foldlM (step doc .strict) p = .ok Q ∧
        Q.failures = p.failures ∧
        es.foldlM (step doc .skipFailed) p = .ok { Q with failures := p.failures ++ fs } ∧
        fs.map (·.endpoint) = (withMark true es (failMask doc p es)).map (·.name)
  | [], p => ⟨p, [], rfl, rfl, by simp [List.foldlM]; rfl, rfl⟩
  | e :: es, p => by
    cases hs : p.step doc .strict e with
    | ok q =>
      obtain ⟨Q, fs, hrun, hfail, hskip, hnames⟩ := foldlM_skipFailed doc es q
      have hq := step_strict_failures hs
      refine ⟨Q, fs, ?_, hfail.trans hq, ?_, ?_⟩
      · simpa [failMask, withMark, hs, bind, Except.bind] using hrun
      · simpa [step_skipFailed, hs, hq, bind, Except.bind] using hskip
      · simpa [failMask, withMark, hs] using hnames
    | error err =>
      obtain ⟨Q, fs, hrun, hfail, hskip, hnames⟩ :=
        foldlM_skipFailed doc es { p with failures := p.failures ++ [⟨e.name, err⟩] }
      have hmask := failMask_withFailures doc (p.failures ++ [⟨e.name, err⟩]) p es
      rw [hmask] at hrun hnames
      have hrun' : (withMark false es (failMask doc p es)).foldlM (step doc .strict) p =
          .ok { Q with failures := p.failures } := by
        have h := foldlM_strict_withFailures doc p.failures
          { p with failures := p.failures ++ [⟨e.name, err⟩] } (withMark false es (failMask doc p es))
        rw [hrun] at h
        exact h
      refine ⟨{ Q with failures := p.failures }, ⟨e.name, err⟩ :: fs, ?_, rfl, ?_, ?_⟩
      · simpa [failMask, withMark, hs] using hrun'
      · simpa [step_skipFailed, hs, bind, Except.bind] using hskip
      · simp [failMask, withMark, hs, hnames]

/-- A strict run fails exactly when the skipping run records a failure, and with the first one
it records. -/
theorem foldlM_strict_error_iff (doc : AbiDocument) :
    ∀ (es : List EndpointDescriptor) (p : Progress) (err : ConversionError),
      es.foldlM (step doc .strict) p = .error err ↔
        ∃ P f fs, es.foldlM (step doc .skipFailed) p = .ok P ∧ P.failures = p.failures ++ f :: fs ∧
          f.error = err
  | [], p, err => by
    constructor
    · intro h
      cases h
    · rintro ⟨P, f, fs, h, hP, -⟩
      cases h
      simp at hP
  | e :: es, p, err => by
    cases hs : p.step doc .strict e with
    | ok q =>
      simp only [List.foldlM_cons, step_skipFailed, hs, bind, Except.bind]
      rw [foldlM_strict_error_iff doc es q err, step_strict_failures hs]
    | error err₀ =>
      obtain ⟨Q, fs, -, -, hskip, -⟩ :=
        foldlM_skipFailed doc es { p with failures := p.failures ++ [⟨e.name, err₀⟩] }
      simp only [List.foldlM_cons, step_skipFailed, hs, bind, Except.bind, hskip]
      constructor
      · intro h
        refine ⟨_, ⟨e.name, err₀⟩, fs, rfl, by simp, ?_⟩
        cases h
        rfl
      · rintro ⟨P, f, fs', hP, hf, rfl⟩
        cases hP
        simp only [List.append_assoc, List.singleton_append, List.append_cancel_left_eq,
          List.cons.injEq] at hf
        rw [← hf.1]

end Progress

/-! ## The whole analysis -/

section Analysis

variable {d : AbiDocument} {pol : Policy}

/-- The progress endpoint analysis starts from, after the named types resolved into `ctx`. -/
def Progress.initial (doc : AbiDocument) (ctx : Context) : Progress :=
  ⟨ctx, ItemNames.forDocument doc, [], [], []⟩

@[simp] theorem Progress.initial_failures (doc : AbiDocument) (ctx : Context) :
    (Progress.initial doc ctx).failures = [] := rfl

@[simp] theorem Progress.model_failures (doc : AbiDocument) (decls : Declarations) (p : Progress) :
    (p.model doc decls).failures = p.failures := rfl

theorem analyze_of_frameworkError {e : ConversionError} (h : checkFramework d = .error e) :
    analyze d pol = .error e := by
  simp [analyze, h, bind, Except.bind]

theorem analyze_of_declareError {e : ConversionError} {s : Declarations × Context}
    (hf : checkFramework d = .ok ())
    (hd : ((declareTypes d).run).run ({}, Context.forDocument d) = (.error e, s)) :
    analyze d pol = .error e := by
  simp [analyze, hf, hd, bind, Except.bind]

theorem analyze_of_declared {decls : Declarations} {ctx : Context}
    (hf : checkFramework d = .ok ())
    (hd : ((declareTypes d).run).run ({}, Context.forDocument d) = (.ok (), decls, ctx)) :
    analyze d pol =
      (d.endpoints.foldlM (Progress.step d pol) (Progress.initial d ctx)).map
        (Progress.model d decls) := by
  simp only [analyze, hf, hd, bind, Except.bind, Progress.initial]
  cases d.endpoints.foldlM (Progress.step d pol) ⟨ctx, ItemNames.forDocument d, [], [], []⟩ <;> rfl

/-- For each endpoint descriptor of a document, in order, whether its conversion fails when the
analysis reaches it. -/
def failingEndpoints (doc : AbiDocument) : List Bool :=
  let (_, _, ctx) := ((declareTypes doc).run).run ({}, Context.forDocument doc)
  Progress.failMask doc (Progress.initial doc ctx) doc.endpoints

/-- The document without the endpoints that fail to convert. -/
def withoutFailing (doc : AbiDocument) : AbiDocument :=
  { doc with endpoints := withMark false doc.endpoints (failingEndpoints doc) }

/-- The strict analysis fails with an endpoint failure exactly when the skipping analysis
reports a failure, and then with the first failure reported. -/
theorem analyze_strict_endpointError_iff (d : AbiDocument) (err : ConversionError) :
    ((∃ n s, err = .inEndpoint n s) ∧ analyze d .strict = .error err) ↔
      ∃ m f fs, analyze d .skipFailed = .ok m ∧ m.failures = f :: fs ∧ f.error = err := by
  cases hf : checkFramework d with
  | error e =>
    rw [analyze_of_frameworkError hf, analyze_of_frameworkError hf]
    have he : e = .unsupportedFramework d.frameworkName := by
      unfold checkFramework at hf
      split at hf <;> cases hf
      rfl
    constructor
    · rintro ⟨⟨n, s, rfl⟩, h⟩
      cases h
      cases he
    · rintro ⟨m, -, -, h, -⟩
      cases h
  | ok u =>
    rcases hd : ((declareTypes d).run).run ({}, Context.forDocument d) with ⟨r, decls, ctx⟩
    cases r with
    | error e =>
      rw [analyze_of_declareError hf hd, analyze_of_declareError hf hd]
      have he : NotEndpoint e := declareTypes_failsOnly d _ _ _ hd
      constructor
      · rintro ⟨⟨n, s, rfl⟩, h⟩
        cases h
        cases he
      · rintro ⟨m, -, -, h, -⟩
        cases h
    | ok _ =>
      rw [analyze_of_declared hf hd, analyze_of_declared hf hd]
      obtain ⟨Q, fs, -, -, hskip, -⟩ :=
        Progress.foldlM_skipFailed d d.endpoints (Progress.initial d ctx)
      have hiff := Progress.foldlM_strict_error_iff d d.endpoints (Progress.initial d ctx) err
      rw [hskip] at hiff ⊢
      constructor
      · rintro ⟨-, h⟩
        cases hs : d.endpoints.foldlM (Progress.step d .strict) (Progress.initial d ctx) with
        | ok P =>
          rw [hs] at h
          cases h
        | error e' =>
          rw [hs] at h
          cases h
          obtain ⟨P, f, fs', hP, hf', rfl⟩ := hiff.1 hs
          cases hP
          exact ⟨_, f, fs', rfl, by simpa using hf', rfl⟩
      · rintro ⟨m, f, fs', hm, hf', rfl⟩
        cases hm
        have hs := hiff.2 ⟨_, f, fs', rfl, by simpa using hf', rfl⟩
        refine ⟨Progress.foldlM_strict_error d hs, ?_⟩
        rw [hs]
        rfl

/-- The skipping analysis is, failures apart, the strict analysis of the document without the
endpoints whose conversion fails; the names of those endpoints are the failures reported. -/
theorem analyze_withoutFailing (d : AbiDocument) {m : Model} (h : analyze d .skipFailed = .ok m) :
    (failingEndpoints d).length = d.endpoints.length ∧
      (withMark true d.endpoints (failingEndpoints d)).map (·.name) = m.failures.map (·.endpoint) ∧
      analyze (withoutFailing d) .strict = .ok { m with failures := [] } := by
  cases hf : checkFramework d with
  | error e =>
    rw [analyze_of_frameworkError hf] at h
    cases h
  | ok u =>
    rcases hd : ((declareTypes d).run).run ({}, Context.forDocument d) with ⟨r, decls, ctx⟩
    cases r with
    | error e =>
      rw [analyze_of_declareError hf hd] at h
      cases h
    | ok u' =>
      cases u'
      have hmask : failingEndpoints d = Progress.failMask d (Progress.initial d ctx) d.endpoints := by
        simp only [failingEndpoints, hd]
      obtain ⟨Q, fs, hrun, hQ, hskip, hnames⟩ :=
        Progress.foldlM_skipFailed d d.endpoints (Progress.initial d ctx)
      rw [analyze_of_declared hf hd, hskip] at h
      cases h
      have hd' : ((declareTypes (withoutFailing d)).run).run
          ({}, Context.forDocument (withoutFailing d)) = (.ok (), decls, ctx) := by
        rw [@declareTypes_congr (withoutFailing d) d rfl]
        exact hd
      refine ⟨by rw [hmask, Progress.failMask_length], by rw [hmask, ← hnames]; rfl, ?_⟩
      have hkept : (withoutFailing d).endpoints =
          withMark false d.endpoints (Progress.failMask d (Progress.initial d ctx) d.endpoints) := by
        rw [← hmask]
        rfl
      rw [analyze_of_declared (d := withoutFailing d) hf hd',
        @step_congr (withoutFailing d) d rfl, hkept,
        show Progress.initial (withoutFailing d) ctx = Progress.initial d ctx from rfl, hrun]
      obtain ⟨c, n, es, sk, fl⟩ := Q
      simp only [Progress.initial_failures] at hQ
      subst hQ
      rfl

/-- The bindings read nothing of the failures a model reports. -/
theorem source_withoutFailures (o : Binding.Options) (m : Model) :
    Binding.source o { m with failures := [] } = Binding.source o m := rfl

/-- Endpoints convert as units: strict analysis fails exactly when skipping reports a failure,
and skipping is strict analysis without the failing endpoints. -/
theorem analyze_transactional (d : AbiDocument) :
    (∀ err, ((∃ n s, err = .inEndpoint n s) ∧ analyze d .strict = .error err) ↔
      ∃ m f fs, analyze d .skipFailed = .ok m ∧ m.failures = f :: fs ∧ f.error = err) ∧
    ∀ m, analyze d .skipFailed = .ok m →
      (failingEndpoints d).length = d.endpoints.length ∧
      (withMark true d.endpoints (failingEndpoints d)).map (·.name) =
        m.failures.map (·.endpoint) ∧
      analyze (withoutFailing d) .strict = .ok { m with failures := [] } ∧
      ∀ o, (convert (withoutFailing d) .strict o).map (·.source) =
        (convert d .skipFailed o).map (·.source) := by
  refine ⟨analyze_strict_endpointError_iff d, fun m h => ?_⟩
  obtain ⟨hlen, hnames, hstrict⟩ := analyze_withoutFailing d h
  refine ⟨hlen, hnames, hstrict, fun o => ?_⟩
  simp only [convert, hstrict, h, bind, Except.bind, source_withoutFailures]
  cases Binding.source o m <;> rfl

end Analysis

end ContractAbi
