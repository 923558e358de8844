import OnePass.Command.Basic
import OnePass.Proofs.PlainOutput
import OnePass.Proofs.RepeatedRuns

/-!
The command, source by source. The sources are the whole text, or every line of
it that is not blank. They are compiled and run one after the other, and what
the command does with one of them depends on nothing but what that source comes
to with the variables that the one before it left.
-/

namespace OnePass.Command

/-- The lines that are not blank as sources of their own, where so many lines
stand before them. -/
def lineSources (name : String) (before : Nat) (lines : List (List Char)) :
    List Source :=
  (lines.zipIdx before).filterMap fun (line, index) =>
    if line.all Text.isBlank then none else some ⟨line, name, index + 1⟩

def Options.sources (o : Options) (name : String) (text : List Char) :
    List Source :=
  if o.lines then lineSources name 0 (Text.lines text) else [⟨text, name, 1⟩]

section Lines

variable {name : String}

theorem lineSources_cons (before : Nat) (line : List Char)
    (lines : List (List Char)) :
    lineSources name before (line :: lines) =
      if line.all Text.isBlank then lineSources name (before + 1) lines
      else ⟨line, name, before + 1⟩ :: lineSources name (before + 1) lines := by
  unfold lineSources
  rw [List.zipIdx_cons, List.filterMap_cons]
  split <;> simp_all

/-- A source that is a line has the number of that line, and the sources before
it are the lines before it. -/
theorem exists_of_prefix_lineSources {lines : List (List Char)} {before : Nat}
    {front : List Source} {s : Source}
    (h : front ++ [s] <+: lineSources name before lines) :
    ∃ earlier, earlier ++ [s.text] <+: lines ∧
    lineSources name before earlier = front ∧
      s = ⟨s.text, name, before + earlier.length + 1⟩ := by
  induction lines generalizing before front with
  | nil =>
      have hempty := List.prefix_nil.mp h
      simp at hempty
  | cons line lines ih =>
      rw [lineSources_cons] at h
      split at h
      · rename_i hblank
        obtain ⟨earlier, hlines, hfront, hs⟩ := ih h
        refine ⟨line :: earlier,
          List.cons_prefix_cons.mpr ⟨rfl, hlines⟩, ?_, ?_⟩
        · rw [lineSources_cons, if_pos hblank, hfront]
        · rw [hs]
          simp
          omega
      · rename_i hline
        cases front with
        | nil =>
            have hs := (List.cons_prefix_cons.mp h).1
            subst hs
            exact ⟨[], List.prefix_append [line] lines, rfl, rfl⟩
        | cons first front =>
            obtain ⟨hfirst, hstart⟩ := List.cons_prefix_cons.mp h
            obtain ⟨earlier, hlines, hfront, hs⟩ := ih hstart
            refine ⟨line :: earlier,
              List.cons_prefix_cons.mpr ⟨rfl, hlines⟩, ?_, ?_⟩
            · rw [lineSources_cons, if_neg hline, hfront, hfirst]
            · rw [hs]
              simp
              omega

theorem location_of_line {text : List Char} {front : List Source} {s : Source}
    {limit : Nat} {e : CompileError}
    (h : front ++ [s] <+: lineSources name 0 (Text.lines text))
    (herror : (s.compileWithin limit).outcome = .error e) :
    ∃ earlier column, earlier ++ [s.text] <+: Text.lines text ∧
      lineSources name 0 earlier = front ∧
      ∀ d, e.diagnostic s = .ok d →
        d.location = some ⟨name, ⟨earlier.length + 1, column⟩⟩ := by
  obtain ⟨earlier, hlines, hfront, hs⟩ := exists_of_prefix_lineSources h
  have hmem : s.text ∈ Text.lines text := hlines.subset (by simp)
  have hfeed : '\n' ∉ s.text := by
    intro hc
    have hend := (Text.mem_of_mem_lines hmem hc).2
    exact absurd hend (by decide)
  obtain ⟨column, hlocation⟩ := Source.location_of_error hfeed herror
  refine ⟨earlier, column, hlines, hfront, ?_⟩
  intro d hd
  rw [hlocation d hd, hs]
  simp

theorem plain_of_prefix_sources {o : Options} {text : List Char}
    {front : List Source} {s : Source}
    (h : front ++ [s] <+: o.sources name text) (hname : Text.Plain name)
    (htext : Text.Plain (String.ofList text)) :
    Text.Plain s.name ∧ Text.Plain (String.ofList s.text) := by
  unfold Options.sources at h
  split at h
  · obtain ⟨earlier, hlines, -, hs⟩ := exists_of_prefix_lineSources h
    have hmem : s.text ∈ Text.lines text := hlines.subset (by simp)
    constructor
    · rw [hs]
      exact hname
    · refine htext.of_subset fun c hc => ?_
      rw [String.toList_ofList] at hc ⊢
      exact (Text.mem_of_mem_lines hmem hc).1
  · have hmem : s ∈ [(⟨text, name, 1⟩ : Source)] := h.subset (by simp)
    cases List.mem_singleton.mp hmem
    exact ⟨hname, htext⟩

end Lines

section Sources

/-- With more output a whole text that compiles is announced, a line is not. -/
def notes (o : Options) (s : Source) (program : Program) : List String :=
  if o.verbose && !o.lines then [s!"Compiled {s.name}: {program.size} words"]
    else []

/-- The transcript once a source is compiled. -/
def announce (host : Host) (o : Options) (t : Transcript) (s : Source)
    (program : Program) : Transcript :=
  (t.log o (host.compile o s).events).report host (notes o s program)

def processSource (host : Host) (fuel : Nat) (o : Options) (t : Transcript)
    (m : Machine) (s : Source) :
    Option (Except Response (Transcript × Machine)) :=
  match (host.compile o s).outcome with
  | .error e =>
      some (.error ((t.log o (host.compile o s).events).fail host o
        (.ofCompileError s e)))
  | .ok program =>
      if o.disasm then
        some ((list host o (announce host o t s program) program).map
          fun t => (t, m))
      else runProgram host fuel o (announce host o t s program) m program

def processSources (host : Host) (fuel : Nat) (o : Options) :
    Transcript → Machine → List Source → Option Response
  | t, _, [] => some (t.response 0)
  | t, m, s :: rest =>
      match processSource host fuel o t m s with
      | none => none
      | some (.error response) => some response
      | some (.ok (t, m)) => processSources host fuel o t m rest

variable {host : Host} {fuel : Nat} {o : Options} {name : String}
  {t : Transcript}
  {m : Machine}

theorem report_nil (t : Transcript) : t.report host [] = t := by
  simp [Transcript.report]

theorem processLines_eq (hlines : o.lines = true) (before : Nat)
    (lines : List (List Char)) :
    processLines host fuel o name t m (before + 1) lines =
      processSources host fuel o t m (lineSources name before lines) := by
  induction lines generalizing t m before with
  | nil => rfl
  | cons line lines ih =>
      have hnotes : ∀ s program, notes o s program = [] := by
        simp [notes, hlines]
      have hnext : ∀ t m,
          processLines host fuel o name t m (before + 1 + 1) lines =
          processSources host fuel o t m
            (lineSources name (before + 1) lines) :=
        fun t m => ih (before + 1)
      rw [processLines, lineSources_cons]
      split
      · exact hnext t m
      · simp only [processSources, processSource, announce, hnotes,
          report_nil, hnext]
        cases host.compile o ⟨line, name, before + 1⟩ with
        | mk outcome events =>
            cases outcome with
            | error e => rfl
            | ok program =>
                cases o.disasm with
                | true =>
                    simp only [if_true]
                    cases list host o (t.log o events) program <;> rfl
                | false => rfl

theorem processText_eq (hlines : o.lines = false) (s : Source) :
    processText host fuel o s =
      processSources host fuel o {} { traces := o.trace } [s] := by
  simp only [processText, processSources, processSource, announce,
    notes, hlines]
  cases host.compile o s with
  | mk outcome events =>
      cases outcome with
      | error e => rfl
      | ok program =>
          have hnotes : (if o.verbose = true then
              (Transcript.log {} o events).report host
                [s!"Compiled {s.name}: {program.size} words"]
              else Transcript.log {} o events) =
              (Transcript.log {} o events).report host
                (if (o.verbose && !false) = true then
                [s!"Compiled {s.name}: {program.size} words"] else []) := by
            cases o.verbose with
            | true => rfl
            | false => exact (report_nil _).symm
          simp only
          rw [hnotes]
          cases o.disasm with
          | true =>
              simp only [if_true]
              cases list host o _ program <;> rfl
          | false => rfl

theorem process_eq (host : Host) (fuel : Nat) (o : Options) (name : String)
    (text : List Char) :
    process host fuel o name text =
      processSources host fuel o {} { traces := o.trace }
        (o.sources name text) := by
  unfold process Options.sources
  cases hlines : o.lines with
  | true => exact processLines_eq hlines 0 (Text.lines text)
  | false => exact processText_eq hlines ⟨text, name, 1⟩

end Sources

section Channels

variable {host : Host} {t : Transcript}

theorem out_print {lines : List String} (h : ∀ line ∈ lines, Text.Plain line) :
    (t.print host lines).out = t.out ++ lines := by
  have hsame : ∀ line ∈ lines, host.out.shown line = line :=
    fun line hline => host.out.shown_of_plain line (h line hline)
  have hshown : lines.map host.out.shown = lines := by
    rw [List.map_congr_left hsame, List.map_id']
  rw [Transcript.print, hshown]

theorem out_log (t : Transcript) (o : Options) (events : List Event) :
    (t.log o events).out = t.out :=
  rfl

/-- The exit code tells whether there was an error, and its report, if it could
be written, is the last thing that the error channel shows. -/
def Response.Tells (host : Host) (r : Response) :
    Option (Except Text.TooLong String) → Prop
  | none => r.exitCode = 0
  | some (.ok report) =>
      r.exitCode = 1 ∧ ∃ log, r.stderr = log ++ (host.err.shown report ++ "\n")
  | some (.error _) => r.exitCode = 3

theorem tells_fail {s : Source} {e : CompileError}
    (h : ∀ fault, e ≠ .malformed fault) (t : Transcript) (o : Options) :
    (t.fail host o (.ofCompileError s e)).Tells host (some (e.render s)) := by
  unfold Failure.ofCompileError
  cases hrender : e.render s with
  | error tooLong => rfl
  | ok report =>
      have hlines : Failure.lines (.rejected report) o.verbose = [report] := by
        cases o.verbose <;> rfl
      have hrejected :
          (t.fail host o (.rejected report)).Tells host
          (some (.ok report)) := by
        refine ⟨rfl, Text.terminateLines t.err, ?_⟩
        rw [Transcript.fail, hlines]
        simp [Transcript.report, Transcript.response, Text.terminateLines,
          String.join_append]
      cases e with
      | malformed fault => exact absurd rfl (h fault)
      | lexical | unexpected | tooDeep => exact hrejected

end Channels

def Host.run (host : Host) (o : Options) (s : Source)
    (values : Option (List Int)) (fuel : Nat) : Except RunError Table :=
  (s.runWithin (host.levels o.logs s) values false fuel).1

/-- What a source comes to: an error, or what it prints and the values of the
variables afterwards. -/
def verdict (host : Host) (fuel : Nat) (o : Options)
    (values : Option (List Int)) (s : Source) :
    Option (Except CompileError (List String × Option (List Int))) :=
  match (host.compile o s).outcome with
  | .error e => some (.error e)
  | .ok program =>
      if o.disasm then
        match program.listing with
        | .ok listing => some (.ok ([listing], values))
        | .error _ => none
      else
        match host.run o s values fuel with
        | .ok table => some (.ok (table.lines, some table.toList))
        | .error _ => none

section Verdicts

variable {host : Host} {fuel : Nat} {o : Options} {values : Option (List Int)}
  {s : Source}

theorem exists_program_of_run {result : Except RunError Table}
    (h : host.run o s values fuel = result)
    (hrefused : ∀ e, result ≠ .error (.rejected e)) :
    ∃ program, (host.compile o s).outcome = .ok program := by
  cases houtcome : (host.compile o s).outcome with
  | error e =>
      rw [Host.compile] at houtcome
      simp only [Host.run, Source.runWithin, houtcome] at h
      exact absurd h.symm (hrefused e)
  | ok program => exact ⟨program, rfl⟩

theorem verdict_of_run (hdisasm : o.disasm = false) {table : Table}
    (h : host.run o s values fuel = .ok table) :
    verdict host fuel o values s =
      some (.ok (table.lines, some table.toList)) := by
  obtain ⟨program, hok⟩ := exists_program_of_run h (by simp)
  simp [verdict, hok, hdisasm, h]

theorem verdict_of_exhausted (hdisasm : o.disasm = false)
    (h : host.run o s values fuel = .error .exhausted) :
    verdict host fuel o values s = none := by
  obtain ⟨program, hok⟩ := exists_program_of_run h (by simp)
  simp [verdict, hok, hdisasm, h]

theorem outcome_of_verdict {e : CompileError}
    (h : verdict host fuel o values s = some (.error e)) :
    (host.compile o s).outcome = .error e := by
  unfold verdict at h
  split at h
  · rename_i e' herror
    cases h
    exact herror
  · split at h
    · split at h <;> cases h
    · split at h <;> cases h

theorem exhausted_of_verdict {m : Machine} (hcarries : m.Carries values)
    (h : verdict host fuel o values s = none) :
    o.disasm = false ∧ host.run o s values fuel = .error .exhausted := by
  unfold verdict at h
  split at h
  · cases h
  · rename_i program hok
    cases hdisasm : o.disasm with
    | true =>
        obtain ⟨listing, hlisting, -⟩ := Source.exists_listing_of_ok hok
        simp [hdisasm, hlisting] at h
    | false =>
        rcases hcarries.run hok fuel with ⟨-, hrun⟩ | ⟨-, hrun, -⟩
        · exact ⟨rfl, hrun⟩
        · simp [hdisasm, Host.run, hrun] at h

theorem verdict_congr {o' : Options} (hdisasm : o'.disasm = o.disasm)
    (houtcome : (host.compile o' s).outcome = (host.compile o s).outcome) :
    verdict host fuel o' values s = verdict host fuel o values s := by
  have hrun : host.run o' s values fuel = host.run o s values fuel := by
    simp only [Host.compile] at houtcome
    simp only [Host.run, Source.runWithin, houtcome]
    cases (s.compileWithin (host.levels o.logs s)).outcome <;> rfl
  simp only [verdict, houtcome, hdisasm, hrun]

end Verdicts

/-- The part of a response that does not tell what was logged. -/
def Response.result (r : Response) : String × Nat :=
  (r.stdout, r.exitCode)

/-- All that the command can do with a source, by what the source comes to. -/
inductive Turn (host : Host) (fuel : Nat) (o : Options) (t : Transcript)
    (m : Machine) (s : Source) :
    Option (Except CompileError (List String × Option (List Int))) → Prop where
  | rejected {e : CompileError} (t' : Transcript) (hout : t'.out = t.out)
      (herror : (host.compile o s).outcome = .error e)
      (answer : ∀ fuel rest, processSources host fuel o t m (s :: rest) =
        some (t'.fail host o (.ofCompileError s e))) :
      Turn host fuel o t m s (some (.error e))
  | printed {out : List String} {final : Option (List Int)} (t' : Transcript)
      (m' : Machine)
      (hout : t'.out = t.out ++ out) (carries : m'.Carries final)
      (goesOn : ∀ fuel', fuel ≤ fuel' → ∀ rest,
        processSources host fuel' o t m (s :: rest) =
          processSources host fuel' o t' m' rest) :
      Turn host fuel o t m s (some (.ok (out, final)))
  | exhausted (answer : ∀ rest,
      processSources host fuel o t m (s :: rest) = none) :
      Turn host fuel o t m s none

section Turns

variable {host : Host} {fuel : Nat} {o : Options} {values : Option (List Int)}
  {t : Transcript} {m : Machine}

theorem runProgram_of_exhausted {program : Program}
    (h : (Machine.runProgram { m with log := #[] } program fuel).1 = .exhausted) :
    runProgram host fuel o t m program = none := by
  unfold runProgram
  generalize Machine.runProgram { m with log := #[] } program fuel =
    result at h ⊢
  rcases result with ⟨ending, m'⟩
  cases h
  rfl

theorem runProgram_of_halted {program : Program} {m' : Machine}
    (h : Machine.runProgram { m with log := #[] } program fuel = (.halted, m')) :
    runProgram host fuel o t m program =
      some (.ok ((t.log o m'.log.toList).print host m'.state.table.lines,
        m')) := by
  unfold runProgram
  rw [h]

theorem list_of_listing {program : Program} {listing : String}
    (h : program.listing = .ok listing) :
    list host o t program = .ok (t.print host [listing]) := by
  unfold list
  rw [h]

theorem out_announce (host : Host) (o : Options) (t : Transcript) (s : Source)
    (program : Program) : (announce host o t s program).out = t.out :=
  rfl

theorem turn (hcarries : m.Carries values) (s : Source) (fuel : Nat) :
    Turn host fuel o t m s (verdict host fuel o values s) := by
  have hempty : ({ m with log := #[] } : Machine).Carries values :=
    ⟨hcarries.watcher, hcarries.table⟩
  unfold verdict
  cases houtcome : (host.compile o s).outcome with
  | error e =>
      refine .rejected (t.log o (host.compile o s).events) rfl houtcome
        fun fuel rest => ?_
      simp only [processSources, processSource, houtcome]
  | ok program =>
      cases hdisasm : o.disasm with
      | true =>
          obtain ⟨listing, hlisting, hplain⟩ :=
            Source.exists_listing_of_ok houtcome
          simp only [if_true, hlisting]
          refine .printed ((announce host o t s program).print host [listing]) m
            ?_ hcarries ?_
          · rw [out_print (by simpa using hplain), out_announce]
          · intro fuel' _ rest
            simp only [processSources, processSource, houtcome, hdisasm,
              if_true, list_of_listing hlisting, Except.map]
      | false =>
          have hsource : ∀ fuel, processSource host fuel o t m s =
              runProgram host fuel o
                (announce host o t s program) m program := by
            simp [processSource, houtcome, hdisasm]
          rcases hempty.run houtcome fuel with ⟨hending, hrun⟩ | ⟨hending,
            hrun, hnext⟩
          · simp only [Host.run, hrun, Bool.false_eq_true, if_false]
            refine .exhausted fun rest => ?_
            rw [processSources, hsource, runProgram_of_exhausted hending]
          · have hsame : ∀ fuel', fuel ≤ fuel' →
                Machine.runProgram { m with log := #[] } program fuel' =
                  Machine.runProgram { m with log := #[] } program fuel :=
              fun _ hle => Machine.runProgram_of_halted hending hle
            simp only [Host.run, hrun, Bool.false_eq_true, if_false]
            generalize Machine.runProgram
              { m with log := #[] } program fuel = result
              at hending hnext hsame ⊢
            rcases result with ⟨ending, m'⟩
            cases hending
            refine .printed (((announce host o t s program).log o
              m'.log.toList).print host m'.state.table.lines) m' ?_ hnext ?_
            · rw [out_print m'.state.table.plain_lines, out_log, out_announce]
            · intro fuel' hle rest
              rw [processSources, hsource,
                runProgram_of_halted (hsame fuel' hle)]

theorem processSources_of_le (hcarries : m.Carries values)
    {sources : List Source} {fuel' : Nat} (hle : fuel ≤ fuel')
    {response : Response}
    (h : processSources host fuel o t m sources = some response) :
    processSources host fuel' o t m sources = some response := by
  induction sources generalizing t m values with
  | nil => exact h
  | cons s sources ih =>
      obtain ⟨result, hturn⟩ : ∃ result, Turn host fuel o t m s result :=
        ⟨_, turn hcarries s fuel⟩
      cases hturn with
      | rejected t' hout herror answer =>
          rw [answer] at h ⊢
          exact h
      | printed t' m' hout carries goesOn =>
          rw [goesOn fuel (Nat.le_refl fuel)] at h
          rw [goesOn fuel' hle]
          exact ih carries h
      | exhausted answer =>
          rw [answer] at h
          cases h

theorem exitCode_of_processSources (hcarries : m.Carries values)
    {sources : List Source} {response : Response}
    (h : processSources host fuel o t m sources = some response) :
    response.exitCode = 0 ∨ response.exitCode = 1 ∨
      response.exitCode = 3 ∧ ∃ s ∈ sources, ∃ e,
        (host.compile o s).outcome = .error e ∧
        ∀ report, e.render s ≠ .ok report := by
  induction sources generalizing t m values with
  | nil =>
      cases h
      exact .inl rfl
  | cons s sources ih =>
      obtain ⟨result, hturn⟩ : ∃ result, Turn host fuel o t m s result :=
        ⟨_, turn hcarries s fuel⟩
      cases hturn with
      | @rejected e t' hout herror answer =>
          rw [answer] at h
          cases h
          have htells :
              (t'.fail host o (.ofCompileError s e)).Tells host
              (some (e.render s)) :=
            tells_fail (Source.ne_malformed_of_error herror) t' o
          cases hrender : e.render s with
          | ok report =>
              rw [hrender] at htells
              exact .inr (.inl htells.1)
          | error tooLong =>
              rw [hrender] at htells
              refine .inr (.inr ⟨htells, s, List.mem_cons_self, e, herror, ?_⟩)
              simp [hrender]
      | printed t' m' hout carries goesOn =>
          rw [goesOn fuel (Nat.le_refl fuel)] at h
          rcases ih carries h with hzero | hone | ⟨hthree, other, hother,
            hrefused⟩
          · exact .inl hzero
          · exact .inr (.inl hone)
          · exact .inr (.inr ⟨hthree, other, List.mem_cons_of_mem s hother,
              hrefused⟩)
      | exhausted answer =>
          rw [answer] at h
          cases h

/-- What is printed and the exit code do not depend on what is logged, where
that does not change how the sources are compiled. -/
theorem result_of_processSources {o' : Options}
    (hdisasm : o'.disasm = o.disasm) {t' : Transcript} (hout : t'.out = t.out)
    {m' : Machine} (hcarries : m.Carries values)
    (hcarries' : m'.Carries values) {sources : List Source}
    (hsources : ∀ s ∈ sources,
      (host.compile o' s).outcome = (host.compile o s).outcome) :
    (processSources host fuel o' t' m' sources).map Response.result =
      (processSources host fuel o t m sources).map Response.result := by
  induction sources generalizing t t' m m' values with
  | nil => simp [processSources, Transcript.response, Response.result, hout]
  | cons s sources ih =>
      obtain ⟨hs, hsources⟩ := List.forall_mem_cons.mp hsources
      have hturn : Turn host fuel o t m s (verdict host fuel o values s) :=
        turn hcarries s fuel
      have hturn' : Turn host fuel o' t' m' s (verdict host fuel o' values s) :=
        turn hcarries' s fuel
      rw [verdict_congr hdisasm hs] at hturn'
      generalize verdict host fuel o values s = result at hturn hturn'
      cases hturn with
      | rejected t₁ hout₁ herror answer =>
          cases hturn' with
          | rejected t₂ hout₂ herror' answer' =>
              rw [answer, answer']
              simp [Response.result, Transcript.fail, Transcript.response,
                Transcript.report, hout, hout₁, hout₂]
      | printed t₁ m₁ hprinted carries goesOn =>
          cases hturn' with
          | printed t₂ m₂ hprinted' carries' goesOn' =>
              rw [goesOn fuel (Nat.le_refl fuel),
                goesOn' fuel (Nat.le_refl fuel)]
              exact ih (by rw [hprinted, hprinted', hout]) carries carries'
                hsources
      | exhausted answer =>
          cases hturn' with
          | exhausted answer' => rw [answer, answer']

theorem processSources_of_error {front : List Source} {s : Source}
    {e : CompileError} (h : (host.compile o s).outcome = .error e)
    (after after' : List Source) :
    processSources host fuel o t m (front ++ s :: after) =
      processSources host fuel o t m (front ++ s :: after') := by
  induction front generalizing t m with
  | nil => simp [processSources, processSource, h]
  | cons first front ih =>
      simp only [List.cons_append, processSources]
      split
      · rfl
      · rfl
      · exact ih

theorem processSources_disasm (hdisasm : o.disasm = true) (fuel' : Nat)
    (sources : List Source) :
    processSources host fuel o t m sources =
      processSources host fuel' o t m sources := by
  induction sources generalizing t m with
  | nil => rfl
  | cons s sources ih =>
      have hsource :
          processSource host fuel o t m s =
          processSource host fuel' o t m s := by
        simp [processSource, hdisasm]
      simp only [processSources, hsource, ih]

end Turns

end OnePass.Command
