import OnePass.Proofs.CommandSources

namespace OnePass.Command

/-- What sources print one after the other, from the given values of the
variables to those at the end. -/
inductive Prints (host : Host) (o : Options) :
    Option (List Int) → List Source → List String → Option (List Int) →
      Prop where
  | nil (values : Option (List Int)) : Prints host o values [] [] values
  | listing {s : Source} {sources : List Source} {program : Program}
      {listing : String}
      {out : List String} {values final : Option (List Int)}
      (disasm : o.disasm = true)
      (ok : (host.compile o s).outcome = .ok program)
      (listed : program.listing = .ok listing)
      (others : Prints host o values sources out final) :
      Prints host o values (s :: sources) (listing :: out) final
  | run {s : Source} {sources : List Source} {table : Table} {out : List String}
      {values final : Option (List Int)} {fuel : Nat}
      (disasm : o.disasm = false)
      (halts : host.run o s values fuel = .ok table)
      (others : Prints host o (some table.toList) sources out final) :
      Prints host o values (s :: sources) (table.lines ++ out) final

theorem prints_of_verdict {host : Host} {fuel : Nat} {o : Options}
    {values middle final : Option (List Int)} {s : Source}
    {sources : List Source} {out others : List String}
    (h : verdict host fuel o values s = some (.ok (out, middle)))
    (hothers : Prints host o middle sources others final) :
    Prints host o values (s :: sources) (out ++ others) final := by
  unfold verdict at h
  split at h
  · cases h
  · rename_i program hok
    split at h
    · rename_i hdisasm
      split at h
      · rename_i listing hlisting
        cases h
        exact .listing hdisasm hok hlisting hothers
      · cases h
    · rename_i hdisasm
      split at h
      · rename_i table hrun
        cases h
        exact .run (by simpa using hdisasm) hrun hothers
      · cases h

section Continues

variable {host : Host} {fuel : Nat} {o : Options} {values : Option (List Int)}
  {t : Transcript} {m : Machine}

/-- With enough fuel the sources print some lines, and it goes on with whatever
follows them. -/
def Continues (host : Host) (o : Options) (t : Transcript) (m : Machine)
    (sources : List Source) (out : List String) (final : Option (List Int)) :
    Prop :=
  ∃ enough t' m', t'.out = t.out ++ out ∧ m'.Carries final ∧
    ∀ fuel, enough ≤ fuel → ∀ rest,
      processSources host fuel o t m (sources ++ rest) =
        processSources host fuel o t' m' rest

theorem Continues.cons {s : Source} {sources : List Source}
    {out others : List String} {middle final : Option (List Int)}
    (hcarries : m.Carries values)
    (h : verdict host fuel o values s = some (.ok (out, middle)))
    (hothers : ∀ t m, m.Carries middle →
      Continues host o t m sources others final) :
    Continues host o t m (s :: sources) (out ++ others) final := by
  have hturn : Turn host fuel o t m s (verdict host fuel o values s) :=
    turn hcarries s fuel
  rw [h] at hturn
  cases hturn with
  | printed t₁ m₁ hout carries goesOn =>
      obtain ⟨enough, t', m', hout', carries', hrest⟩ := hothers t₁ m₁ carries
      refine ⟨max fuel enough, t', m', ?_, carries', fun fuel' hle rest => ?_⟩
      · rw [hout', hout, List.append_assoc]
      · rw [List.cons_append,
          goesOn fuel' (Nat.le_trans (Nat.le_max_left _ _) hle)]
        exact hrest fuel' (Nat.le_trans (Nat.le_max_right _ _) hle) rest

theorem Prints.continues {sources : List Source} {out : List String}
    {final : Option (List Int)} (h : Prints host o values sources out final)
    (hcarries : m.Carries values) : Continues host o t m sources out final := by
  induction h generalizing t m with
  | nil => exact ⟨0, t, m, by simp, hcarries, fun fuel _ rest => rfl⟩
  | @listing s sources program listing out values final disasm ok listed
      others ih =>
      have hverdict :
          verdict host 0 o values s = some (.ok ([listing], values)) := by
        simp [verdict, ok, disasm, listed]
      exact Continues.cons hcarries hverdict fun t m hnext => ih hnext
  | run disasm halts others ih =>
      exact Continues.cons hcarries (verdict_of_run disasm halts)
        fun t m hnext => ih hnext

end Continues

/-- Some sources are printed, and then comes one of the given kind. -/
def Stops (host : Host) (o : Options) (values : Option (List Int))
    (sources : List Source) (kind : Source → Option (List Int) → Prop) : Prop :=
  ∃ front s out final, front ++ [s] <+: sources ∧
    Prints host o values front out final ∧
    kind s final

section Stops

variable {host : Host} {o : Options} {values : Option (List Int)}
  {sources : List Source}

def Refused (host : Host) (o : Options) (s : Source) (_ : Option (List Int)) :
    Prop :=
  ∃ e, (host.compile o s).outcome = .error e

def Endless (host : Host) (o : Options) (s : Source)
    (values : Option (List Int)) : Prop :=
  o.disasm = false ∧ ∀ fuel, host.run o s values fuel = .error .exhausted

theorem stops_here {kind : Source → Option (List Int) → Prop} {s : Source}
    (h : kind s values) (sources : List Source) :
    Stops host o values (s :: sources) kind :=
  ⟨[], s, [], values, List.prefix_append [s] sources, .nil values, h⟩

theorem Stops.cons {kind : Source → Option (List Int) → Prop} {fuel : Nat}
    {s : Source} {out : List String} {middle : Option (List Int)}
    (hverdict : verdict host fuel o values s = some (.ok (out, middle)))
    (h : Stops host o middle sources kind) :
    Stops host o values (s :: sources) kind := by
  obtain ⟨front, stop, others, final, hstart, hprints, hkind⟩ := h
  exact ⟨s :: front, stop, out ++ others, final,
    List.cons_prefix_cons.mpr ⟨rfl, hstart⟩,
    prints_of_verdict hverdict hprints, hkind⟩

/-- All sources are printed, or one of them does not compile or does not end. -/
theorem prints_or_stops (host : Host) (o : Options) (sources : List Source)
    {m : Machine} (hcarries : m.Carries values) :
    (∃ out final, Prints host o values sources out final) ∨
      Stops host o values sources (Refused host o) ∨
      Stops host o values sources (Endless host o) := by
  induction sources generalizing m values with
  | nil => exact .inl ⟨[], values, .nil values⟩
  | cons s sources ih =>
      by_cases hend : ∀ fuel, verdict host fuel o values s = none
      · have hexhausted := fun fuel => exhausted_of_verdict hcarries (hend fuel)
        have hendless : Endless host o s values :=
          ⟨(hexhausted 0).1, fun fuel => (hexhausted fuel).2⟩
        exact .inr (.inr (stops_here hendless sources))
      · obtain ⟨fuel, hfuel⟩ := Classical.not_forall.mp hend
        have hturn : Turn host fuel o {} m s (verdict host fuel o values s) :=
          turn hcarries s fuel
        generalize hverdict :
          verdict host fuel o values s = result at hturn hfuel
        cases hturn with
        | exhausted => exact absurd rfl hfuel
        | rejected =>
            exact .inr (.inl (stops_here
              ⟨_, outcome_of_verdict hverdict⟩ sources))
        | printed t' m' hout carries goesOn =>
            rcases ih carries with ⟨out, final, hprints⟩ | hrefused | hendless
            · exact .inl ⟨_, final, prints_of_verdict hverdict hprints⟩
            · exact .inr (.inl (hrefused.cons hverdict))
            · exact .inr (.inr (hendless.cons hverdict))

end Stops

/-- The command has one response, with any fuel that is enough: it prints
exactly the given lines, and tells the error if there is one. -/
def Answers (host : Host) (o : Options) (name : String) (text : List Char)
    (out : List String) (error : Option (Except Text.TooLong String)) : Prop :=
  ∃ response,
    (∃ enough, ∀ fuel, enough ≤ fuel →
      process host fuel o name text = some response) ∧
    (∀ fuel other, process host fuel o name text = some other →
      other = response) ∧
    response.stdout = Text.terminateLines out ∧ response.Tells host error

/-- A source that is not nested too deep under the options. -/
def Host.Reaches (host : Host) (o : Options) (s : Source) : Prop :=
  ∀ found, (host.compile o s).outcome ≠ .error (.tooDeep found)

/-- What the command does with a text. -/
structure Behaves (host : Host) (o : Options) (name : String)
    (text : List Char) : Prop where
  /-- If all sources compile and halt, their output is printed. -/
  finished : ∀ out final, Prints host o none (o.sources name text) out final →
    Answers host o name text out none
  /-- If one does not compile, the output of those before it is printed, and its
  error. -/
  broken : ∀ front s out final e, front ++ [s] <+: o.sources name text →
    Prints host o none front out final → (host.compile o s).outcome = .error e →
      Answers host o name text out (some (e.render s))
  /-- The report of an error can be written unless it shows an integer that is
  too long. -/
  written : ∀ s e, (host.compile o s).outcome = .error e →
    ((∃ report, e.render s = .ok report) ↔ ∀ n ∈ e.shown, Text.isShort n = true)
  /-- It is shown as it is written where nothing in the text controls a
  terminal. -/
  plain : ∀ front s e report, front ++ [s] <+: o.sources name text →
    (host.compile o s).outcome = .error e → e.render s = .ok report →
    Text.Plain name → Text.Plain (String.ofList text) →
    host.err.shown report = report
  /-- The error of a line has the number that the line has among all lines. -/
  located : ∀ front s e, o.lines = true → front ++ [s] <+: o.sources name text →
    (host.compile o s).outcome = .error e →
      ∃ earlier column, earlier ++ [s.text] <+: Text.lines text ∧
        lineSources name 0 earlier = front ∧
        ∀ d, e.diagnostic s = .ok d →
          d.location = some ⟨name, ⟨earlier.length + 1, column⟩⟩
  /-- Nothing behind a source that does not compile makes a difference. -/
  unread : ∀ front s e text', front ++ [s] <+: o.sources name text →
    front ++ [s] <+: o.sources name text' →
    (host.compile o s).outcome = .error e →
      ∀ fuel, process host fuel o name text' = process host fuel o name text
  /-- There is nothing else that can happen, but that a program is run for ever.
  -/
  complete : (∃ out final, Prints host o none (o.sources name text) out final) ∨
    Stops host o none (o.sources name text) (Refused host o) ∨
    Stops host o none (o.sources name text) (Endless host o) ∧
      ∀ fuel, process host fuel o name text = none
  /-- For a listing nothing is run. -/
  unrun : o.disasm = true →
    ∃ response, ∀ fuel, process host fuel o name text = some response
  /-- Only an error that cannot be reported is a mistake of the command. -/
  exitCode : ∀ fuel response, process host fuel o name text = some response →
    response.exitCode = 0 ∨ response.exitCode = 1 ∨
      response.exitCode = 3 ∧ ∃ s ∈ o.sources name text, ∃ e,
        (host.compile o s).outcome = .error e ∧ ∀ report,
          e.render s ≠ .ok report
  /-- What is logged changes neither the output nor the exit code, unless it
  takes the room for a text that is nested deep. -/
  quiet : ∀ o' : Options, o'.lines = o.lines → o'.disasm = o.disasm →
    (o'.logs = o.logs ∨
      ∀ s ∈ o.sources name text, host.Reaches o s ∧ host.Reaches o' s) →
    ∀ fuel, (process host fuel o' name text).map Response.result =
      (process host fuel o name text).map Response.result

section Behaves

variable {host : Host} {o : Options} {name : String} {text : List Char}

theorem process_of_le {fuel fuel' : Nat} (hle : fuel ≤ fuel')
    {response : Response} (h : process host fuel o name text = some response) :
    process host fuel' o name text = some response := by
  rw [process_eq] at h ⊢
  exact processSources_of_le (Machine.carries_zero o.trace) hle h

theorem answers_of_response {out : List String}
    {error : Option (Except Text.TooLong String)} {response : Response}
    {enough : Nat}
    (h : ∀ fuel, enough ≤ fuel → process host fuel o name text = some response)
    (hout : response.stdout = Text.terminateLines out)
    (htells : response.Tells host error) :
    Answers host o name text out error := by
  refine ⟨response, ⟨enough, h⟩, fun fuel other hother => ?_, hout, htells⟩
  have hlater := process_of_le (Nat.le_max_left fuel enough) hother
  rw [h _ (Nat.le_max_right fuel enough)] at hlater
  exact (Option.some.inj hlater).symm

theorem Answers.exists_response {out : List String}
    {error : Option (Except Text.TooLong String)}
    (h : Answers host o name text out error) :
    ∃ fuel response, process host fuel o name text = some response := by
  obtain ⟨response, ⟨enough, hresponse⟩, -⟩ := h
  exact ⟨enough, response, hresponse enough (Nat.le_refl enough)⟩

theorem Prints.answers {out : List String} {final : Option (List Int)}
    (h : Prints host o none (o.sources name text) out final) :
    Answers host o name text out none := by
  obtain ⟨enough, t, m, hout, -, hrest⟩ :
      Continues host o {} { traces := o.trace } _ out final :=
    h.continues (Machine.carries_zero o.trace)
  have hresponse : ∀ fuel, enough ≤ fuel →
      process host fuel o name text = some (t.response 0) := by
    intro fuel hle
    have hend := hrest fuel hle []
    rw [List.append_nil] at hend
    rw [process_eq, hend]
    rfl
  exact answers_of_response hresponse (congrArg Text.terminateLines hout) rfl

theorem Prints.reaches {front : List Source} {s : Source} {out : List String}
    {final : Option (List Int)} (h : Prints host o none front out final)
    (hstart : front ++ [s] <+: o.sources name text) :
    ∃ enough t m rest, t.out = out ∧ m.Carries final ∧ ∀ fuel, enough ≤ fuel →
      process host fuel o name text =
        processSources host fuel o t m (s :: rest) := by
  obtain ⟨rest, hrest⟩ := hstart
  obtain ⟨enough, t, m, hout, hcarries, hcontinues⟩ :
      Continues host o {} { traces := o.trace } _ out final :=
    h.continues (Machine.carries_zero o.trace)
  refine ⟨enough, t, m, rest, hout, hcarries, fun fuel hle => ?_⟩
  rw [process_eq, ← hrest, List.append_assoc]
  exact hcontinues fuel hle (s :: rest)

theorem Prints.answers_error {front : List Source} {s : Source}
    {out : List String} {final : Option (List Int)} {e : CompileError}
    (h : Prints host o none front out final)
    (hstart : front ++ [s] <+: o.sources name text)
    (herror : (host.compile o s).outcome = .error e) :
    Answers host o name text out (some (e.render s)) := by
  obtain ⟨enough, t, m, rest, hout, hcarries, hreaches⟩ := h.reaches hstart
  have hturn : Turn host 0 o t m s (verdict host 0 o final s) :=
    turn hcarries s 0
  rw [verdict, herror] at hturn
  cases hturn with
  | rejected t' hsame _ answer =>
      have hresponse : ∀ fuel, enough ≤ fuel → process host fuel o name text =
          some (t'.fail host o (.ofCompileError s e)) :=
        fun fuel hle => (hreaches fuel hle).trans (answer fuel rest)
      apply answers_of_response hresponse
      · exact congrArg Text.terminateLines (hsame.trans hout)
      · exact tells_fail (Source.ne_malformed_of_error herror) t' o

theorem Stops.never_answers
    (h : Stops host o none (o.sources name text) (Endless host o))
    (fuel : Nat) : process host fuel o name text = none := by
  obtain ⟨front, s, out, final, hstart, hprints, hdisasm, hendless⟩ := h
  obtain ⟨enough, t, m, rest, -, hcarries, hreaches⟩ := hprints.reaches hstart
  -- An answer would be the same with more fuel, and from some fuel on there is
  -- none.
  cases hprocess : process host fuel o name text with
  | none => rfl
  | some response =>
      have hlater := process_of_le (Nat.le_max_left fuel enough) hprocess
      rw [hreaches _ (Nat.le_max_right fuel enough)] at hlater
      have hturn : Turn host (max fuel enough) o t m s _ :=
        turn hcarries s (max fuel enough)
      rw [verdict_of_exhausted hdisasm (hendless _)] at hturn
      cases hturn with
      | exhausted answer =>
          rw [answer] at hlater
          cases hlater

theorem compile_eq_of_reaches {o' : Options} {s : Source} (h : host.Reaches o s)
    (h' : host.Reaches o' s) :
    (host.compile o' s).outcome = (host.compile o s).outcome := by
  rcases Nat.le_total (host.levels o.logs s)
    (host.levels o'.logs s) with hle | hle
  · rcases s.outcome_of_le hle with hsame | ⟨found, hdeep⟩
    · exact hsame
    · exact absurd hdeep (h found)
  · rcases s.outcome_of_le hle with hsame | ⟨found, hdeep⟩
    · exact hsame.symm
    · exact absurd hdeep (h' found)

end Behaves

/-- The command prints what its sources print, up to the first that does not
compile. -/
theorem outcome_follows_sources (host : Host) (o : Options) (name : String)
    (text : List Char) : Behaves host o name text := by
  have hcarries := Machine.carries_zero o.trace
  have hcomplete := prints_or_stops host o (o.sources name text) hcarries
  constructor
  case finished => exact fun out final hprints => hprints.answers
  case broken =>
    intro front s out final e hstart hprints herror
    exact hprints.answers_error hstart herror
  case written =>
    intro s e herror
    exact CompileError.exists_render_iff s (Source.ne_malformed_of_error herror)
  case plain =>
    intro front s e report hstart herror hreport hname htext
    obtain ⟨hname', htext'⟩ := plain_of_prefix_sources hstart hname htext
    apply host.err.shown_of_plain
    exact Source.plain_render_of_error hname' htext' herror hreport
  case located =>
    intro front s e hlines hstart herror
    rw [Options.sources, hlines] at hstart
    exact location_of_line hstart herror
  case unread =>
    rintro front s e text' ⟨after, hafter⟩ ⟨after', hafter'⟩ herror fuel
    rw [process_eq, process_eq, ← hafter, ← hafter', List.append_assoc,
      List.append_assoc]
    exact processSources_of_error herror after' after
  case complete =>
    rcases hcomplete with hprints | hrefused | hendless
    · exact .inl hprints
    · exact .inr (.inl hrefused)
    · exact .inr (.inr ⟨hendless, hendless.never_answers⟩)
  case unrun =>
    intro hdisasm
    obtain ⟨enough, response, h⟩ :
        ∃ enough response, process host enough o name text = some response := by
      rcases hcomplete with ⟨out, final, hprints⟩ |
        ⟨front, s, out, final, hstart, hprints, e, herror⟩ |
        ⟨front, s, out, final, hstart, hprints, hfalse, -⟩
      · exact hprints.answers.exists_response
      · exact (hprints.answers_error hstart herror).exists_response
      · rw [hdisasm] at hfalse
        cases hfalse
    refine ⟨response, fun fuel => ?_⟩
    rw [← h, process_eq, process_eq]
    exact processSources_disasm hdisasm enough _
  case exitCode =>
    intro fuel response h
    rw [process_eq] at h
    exact exitCode_of_processSources hcarries h
  case quiet =>
    intro o' hlines hdisasm hlogs fuel
    have hsources : o'.sources name text = o.sources name text := by
      simp [Options.sources, hlines]
    rw [process_eq, process_eq, hsources]
    apply result_of_processSources hdisasm rfl hcarries
      (Machine.carries_zero o'.trace)
    intro s hs
    rcases hlogs with hsame | hreaches
    · rw [Host.compile, Host.compile, hsame]
    · exact compile_eq_of_reaches (hreaches s hs).1 (hreaches s hs).2

/-- An invalid character that starts a control sequence. -/
def coloured : Source where
  text := "a=1\x1b[m;".toList
  name := "<stdin>"

def colouredReport : String :=
  "<stdin>:1:4: error: invalid character '\x1b'\n    a=1\x1b[m;\n       ^"

/-- Where neither channel is a terminal. -/
def redirected : Host :=
  ⟨.pipe, .pipe, fun _ _ => nestingLimit⟩

def colouredResponse : Response where
  exitCode := 1
  stdout := ""
  stderr := "<stdin>:1:4: error: invalid character '\x1b'\n    a=1;\n       ^\n"

/-- An error is not always shown as it is written. -/
theorem control_sequence_not_reported :
    (redirected.compile {} coloured).outcome =
        .error (.lexical ⟨.invalidCharacter '\x1b', ⟨1, 4⟩⟩) ∧
      CompileError.render coloured (.lexical ⟨.invalidCharacter '\x1b', ⟨1, 4⟩⟩) =
        .ok colouredReport ∧
      process redirected 0 {} coloured.name coloured.text = some colouredResponse ∧
      ∀ before after,
        colouredResponse.stderr ≠ before ++ colouredReport ++ after := by
  refine ⟨?_, ?_, ?_, ?_⟩
  · decide +kernel
  · decide +kernel
  · decide +kernel
  · intro before after h
    have hbracket : '[' ∈ colouredReport.toList := by decide
    have hmem := congrArg ('[' ∈ ·.toList) h
    simp only [String.toList_append, List.mem_append, hbracket, or_true,
      true_or, eq_iff_iff, iff_true] at hmem
    revert hmem
    decide

end OnePass.Command
