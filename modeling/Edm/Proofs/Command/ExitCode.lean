import Edm.Command.Run
import Edm.Proofs.Document.Reported

/-!
# The exit code of the command

On a file with a description that can be loaded, a strict run fails if a decorator of the description is rejected, and
any other run succeeds, as long as the document can be written and the console prints what it is handed.  The document
does not depend on how strict the run is, nor on what it says besides (`Command.exitCode_of_load`).

The console may refuse a note on account of a name.  The run breaks off then, under either policy, when the document is
out already (`Command.status_of_unprinted`).
-/

namespace Edm

namespace Command

/-! ### Requests that are carried out -/

/-- A request that leads to a description in a directory. -/
structure Request.LeadsTo (r : Request) (d : Directory) (data : Json) : Prop where
  single : r.hasSurplus = false
  input : ∃ entry, d.look r.input = .ok entry ∧ GraphFile.read (FilePath.ofText r.input).text (.ok entry) = .ok data
  output : ∀ path ∈ r.outputDir, ∀ bytes, d.look path ≠ .ok (.file bytes)

/-- What is in the way of the file that a request asks for. -/
def Request.obstacle? (r : Request) (d : Directory) : Option PathError := r.target?.bind d.obstacle?

/-- Where a document goes that a request asks for: to the output, on a line of its own, or to a file. -/
def Request.delivers (r : Request) (text : List Char) : List Char × Option (FilePath × List Char) :=
  match r.target? with
  | none => (text ++ ['\n'], none)
  | some path => ([], some (path, text))

/-- Where a document goes in a directory, or what is in the way of its file. -/
def Request.deliversIn (r : Request) (d : Directory) (text : List Char) :
    Except RunError (List Char × Option (FilePath × List Char)) :=
  (r.obstacle? d).elim (.ok (r.delivers text)) fun e => .error (.path e)

/-- Where the document of a run goes. -/
def Outcome.delivered (o : Outcome) : List Char × Option (FilePath × List Char) := (o.output, o.file)

variable {d : Directory} {arguments : List Text} {r : Request} {data : Json} {p : Program} {console : Console}

theorem ending_conclude {notes : List Note} (h : ∀ note ∈ notes, console.prints note = true) (code : Nat) :
    (console.conclude notes code).ending = .exit code := by
  rw [Console.conclude, Console.refused?_eq_none.2 h]

/-- What a run that hands notes to a console leaves: 0 if it is to leave 0 and all notes are printed. -/
theorem exitCode_conclude (notes : List Note) (fails : Bool) :
    (console.conclude notes (if fails then 1 else 0)).exitCode
      = if fails || notes.any (fun note => !console.prints note) then 1 else 0 := by
  by_cases h : ∀ note ∈ notes, console.prints note = true
  · have hnone : notes.any (fun note => !console.prints note) = false := by simpa using h
    rw [Outcome.exitCode, ending_conclude h, hnone, Bool.or_false]
    rfl
  · obtain ⟨note, hnote⟩ := Option.ne_none_iff_exists'.1 (mt Console.refused?_eq_none.1 h)
    have hsome : notes.any (fun note => !console.prints note) = true := by simpa using h
    rw [Outcome.exitCode, Console.conclude, hnote, hsome, Bool.or_true]
    rfl

/-- What becomes of a program that is rendered. -/
theorem render_eq {result : RenderResult} (hresult : p.render r.options (some p.routes) = .ok result)
    (console : Console) :
    ∃ o, r.render p console = .ok o ∧ o.delivered = r.delivers result.text
      ∧ o.ending = (console.conclude (r.notes p result) (if r.strict && !result.isClean then 1 else 0)).ending := by
  rw [Request.render, hresult]
  refine ⟨_, rfl, ?_, rfl⟩
  rw [Outcome.delivered, Request.delivers]
  cases r.target? <;> rfl

/-- Where the request leads to a description, the run renders the program that it gives. -/
theorem run_eq_render (hleads : r.LeadsTo d data) (h : Program.load data = .ok p) :
    r.run (d.look r.input) ((r.outputDir.map d.look).getD (.error .missing)) console = r.render p console := by
  obtain ⟨entry, hentry, hread⟩ := hleads.input
  have hload : Program.loadFile (FilePath.ofText r.input).text (.ok entry) = .ok p := by
    rw [Program.loadFile, hread]
    exact h
  have houtput : ∀ bytes, (r.outputDir.map d.look).getD (.error .missing) ≠ .ok (.file bytes) := by
    intro bytes
    cases hdir : r.outputDir with
    | none => simp
    | some path => exact hleads.output path hdir bytes
  rw [hentry]
  unfold Request.run
  split
  next bytes heq => exact absurd heq (houtput bytes)
  next hinput _ => cases hinput
  next hinput _ => cases hinput
  next hinput _ =>
    cases hinput
    rw [hleads.single, hload]
    rfl

/-- A document is written unless something is in the way of its file. -/
theorem writtenIn_eq {o : Outcome} {text : List Char} (hdelivered : o.delivered = r.delivers text) :
    o.writtenIn d = (r.obstacle? d).elim (.ok o) fun e => .error (.path e) := by
  have hobstacle : (o.file.bind fun f => d.obstacle? f.1) = r.obstacle? d := by
    rw [show o.file = (r.delivers text).2 from congrArg Prod.snd hdelivered, Request.delivers, Request.obstacle?]
    cases r.target? <;> rfl
  rw [Outcome.writtenIn, hobstacle]
  cases r.obstacle? d <;> rfl

/-- A run renders the program that its input describes, delivers the document unless something is in the way, and hands
its notes to the console. -/
theorem run_of_leadsTo (hunderstood : understand arguments = .request r) (hleads : r.LeadsTo d data)
    (h : Program.load data = .ok p) {result : RenderResult}
    (hresult : p.render r.options (some p.routes) = .ok result) (console : Console) :
    ∃ o, run d arguments console = (r.obstacle? d).elim (.ok o) (fun e => .error (.path e))
      ∧ o.delivered = r.delivers result.text
      ∧ o.ending = (console.conclude (r.notes p result) (if r.strict && !result.isClean then 1 else 0)).ending := by
  obtain ⟨o, hrender, hdelivered, hending⟩ := render_eq hresult console
  refine ⟨o, ?_, hdelivered, hending⟩
  rw [run, hunderstood]
  dsimp only
  rw [run_eq_render hleads h, hrender]
  exact writtenIn_eq hdelivered

/-- The status of such a run. -/
theorem status_of_leadsTo (hunderstood : understand arguments = .request r) (hleads : r.LeadsTo d data)
    (h : Program.load data = .ok p) {result : RenderResult}
    (hresult : p.render r.options (some p.routes) = .ok result) (console : Console) :
    status (run d arguments console) = if (r.obstacle? d).isSome || (r.strict && !result.isClean)
      || (r.notes p result).any (fun note => !console.prints note) then 1 else 0 := by
  obtain ⟨o, hrun, -, hending⟩ := run_of_leadsTo hunderstood hleads h hresult console
  have hcode : o.exitCode = _ := (congrArg Ending.status hending).trans (exitCode_conclude _ _)
  rw [hrun]
  cases r.obstacle? d with
  | some e => rfl
  | none => exact hcode

/-- Where the document of such a run goes. -/
theorem delivered_of_leadsTo (hunderstood : understand arguments = .request r) (hleads : r.LeadsTo d data)
    (h : Program.load data = .ok p) {result : RenderResult}
    (hresult : p.render r.options (some p.routes) = .ok result) (console : Console) :
    (run d arguments console).map Outcome.delivered = r.deliversIn d result.text := by
  obtain ⟨o, hrun, hdelivered, -⟩ := run_of_leadsTo hunderstood hleads h hresult console
  rw [hrun, Request.deliversIn, ← hdelivered]
  cases r.obstacle? d <;> rfl

/-- The errors of a rendering are exactly the decorators of the description that are rejected, and there are no
warnings.  So a run on a file with the description that can write its document and print its notes fails if it is strict
and a decorator is rejected, and succeeds otherwise; any other run leaves 1.  The document is the same for every policy,
form of diagnostics, choice to show annotations and console. -/
theorem exitCode_of_load (h : Program.load data = .ok p) (htexts : p.graph.HasTextNames) :
    (∀ options routes, Program.AreRoutes routes → ∃ result, p.render options routes = .ok result
        ∧ result.errorCount = data.rejectedCount ∧ result.warningCount = 0)
      ∧ ∀ d arguments r, understand arguments = .request r → r.LeadsTo d data →
          ∃ result, p.render r.options (some p.routes) = .ok result ∧ ∀ console,
            (r.obstacle? d = none → (∀ note ∈ r.notes p result, console.prints note = true) →
              ∃ o, run d arguments console = .ok o ∧ o.ending
                = .exit (if r.strict && data.decoratorEntries.any (fun e => !e.isAccepted) then 1 else 0))
            ∧ status (run d arguments console)
              = (if (r.obstacle? d).isSome || (r.strict && data.decoratorEntries.any (fun e => !e.isAccepted))
                  || (r.notes p result).any (fun note => !console.prints note) then 1 else 0)
            ∧ (run d arguments console).map Outcome.delivered = r.deliversIn d result.text
            ∧ ∀ arguments' strict jsonDiagnostics showAnnotations console',
                understand arguments' = .request { r with strict, jsonDiagnostics, showAnnotations } →
                (run d arguments' console').map Outcome.delivered
                  = (run d arguments console).map Outcome.delivered := by
  have hfit := Program.isFit_of_load h htexts
  have hcounts : ∀ options routes, Program.AreRoutes routes → ∃ result, p.render options routes = .ok result
      ∧ result.errorCount = data.rejectedCount ∧ result.warningCount = 0 := by
    intro options routes hroutes
    obtain ⟨text, -, hresult⟩ := hfit.render_eq hroutes options
    exact ⟨_, hresult, Program.counts_of_render h hresult hfit hroutes⟩
  refine ⟨hcounts, fun d arguments r hunderstood hleads => ?_⟩
  obtain ⟨result, hresult, herrors, -⟩ := hcounts r.options (some p.routes) (Program.areRoutes_routes p)
  have hclean : (!result.isClean) = data.decoratorEntries.any (fun e => !e.isAccepted) := by
    rw [RenderResult.isClean, herrors, Json.rejectedCount, Bool.eq_iff_iff]
    simp [List.countP_eq_zero]
  refine ⟨result, hresult, fun console => ?_⟩
  obtain ⟨o, hrun, -, hending⟩ := run_of_leadsTo hunderstood hleads h hresult console
  rw [hclean] at hending
  refine ⟨fun hobstacle hprints => ⟨o, ?_, ?_⟩, hclean ▸ status_of_leadsTo hunderstood hleads h hresult console,
    delivered_of_leadsTo hunderstood hleads h hresult console, ?_⟩
  · rw [hrun, hobstacle, Option.elim_none]
  · rw [hending, ending_conclude hprints]
  · intro arguments' strict jsonDiagnostics showAnnotations console' hunderstood'
    have hleads' : Request.LeadsTo { r with strict, jsonDiagnostics, showAnnotations } d data :=
      ⟨hleads.single, hleads.input, hleads.output⟩
    rw [delivered_of_leadsTo hunderstood hleads h hresult console]
    exact delivered_of_leadsTo hunderstood' hleads' h hresult console'

/-! ### A name that looks like a mark -/

/-- A description and its program, read from the bytes of a file. -/
def programOf? (bytes : List UInt8) : Option (Json × Program) :=
  match GraphFile.read "g.json" (.ok (.file bytes)) with
  | .error _ => none
  | .ok data => (Program.load data).toOption.map fun p => (data, p)

theorem of_programOf? {bytes : List UInt8} (h : programOf? bytes = some (data, p)) :
    GraphFile.read "g.json" (.ok (.file bytes)) = .ok data ∧ Program.load data = .ok p := by
  unfold programOf? at h
  split at h
  · cases h
  next data' hread =>
    cases hload : Program.load data' with
    | error e =>
      rw [hload] at h
      cases h
    | ok p' =>
      rw [hload] at h
      cases h
      exact ⟨hread, hload⟩

/-- A file with a model of an unlucky name that is marked by an unknown decorator. -/
def markedBytes : List UInt8 :=
  ("\x7b\"namespaces\": [\x7b\"name\": \"A\", "
    ++ "\"models\": [\x7b\"name\": \"[/]\", \"decorators\": [\"nope\"]\x7d]\x7d]\x7d").toList.map
    fun c => UInt8.ofNat c.toNat

/-- A directory with this file. -/
def markedDirectory : Directory := { files := [(["g.json"], markedBytes)] }

/-- The nodes of the program that the file gives. -/
def markedNodes : List Node := (List.range 3).map .nameSpace ++ (List.range 23).map .model

/-- A console that refuses the mark for closing what was opened last: nothing is open where it stands in a name. -/
def markReader : Console := { prints := fun note => note.marked.all fun t => !decide (Text.ofString "[/]" <:+: t) }

theorem exists_marked : ∃ data p, programOf? markedBytes = some (data, p) ∧ p.graph.HasTextNames := by
  have hsome : (programOf? markedBytes).isSome = true := by decide +kernel
  obtain ⟨⟨data, p⟩, hmarked⟩ := Option.isSome_iff_exists.1 hsome
  have hnodes : ∀ x ∈ programOf? markedBytes, ∀ n ∈ markedNodes,
      x.2.graph.HasTextName n ∧ ∀ m ∈ x.2.graph.links n, m ∈ markedNodes := by decide +kernel
  exact ⟨data, p, hmarked, Graph.hasTextNames_of_closed (by decide) (hnodes _ hmarked)⟩

theorem leadsTo_marked {r : Request} (hinput : r.input = "g.json") (hsingle : r.hasSurplus = false)
    (houtput : ∀ path ∈ r.outputDir, (markedDirectory.look path).toOption.isNone = true)
    (hmarked : programOf? markedBytes = some (data, p)) : r.LeadsTo markedDirectory data := by
  refine ⟨hsingle, ⟨.file markedBytes, ?_, ?_⟩, fun path hpath bytes hfile => ?_⟩
  · rw [hinput]
    rfl
  · rw [hinput]
    exact (of_programOf? hmarked).1
  · have hnone := houtput path hpath
    rw [hfile] at hnone
    cases hnone

/-- The decorator is rejected, and the note that says so is refused. -/
theorem refused_marked : ∀ x ∈ programOf? markedBytes,
    x.1.decoratorEntries.any (fun e => !e.isAccepted) = true
      ∧ ∀ result ∈ (x.2.render (Request.options { input := "g.json" }) (some x.2.routes)).toOption,
        (Request.notes { input := "g.json" } x.2 result).any (fun note => !markReader.prints note) = true := by
  decide +kernel

theorem exitCode_of_load_marked : ∃ data p, Program.load data = .ok p ∧ p.graph.HasTextNames
    ∧ (∃ o, run markedDirectory ["g.json", "--diagnostics", "json", "--policy", "strict"] markReader = .ok o
        ∧ o.ending = .exit 1)
    ∧ (∃ o, run markedDirectory ["g.json", "--diagnostics", "json"] markReader = .ok o ∧ o.ending = .exit 0)
    ∧ (∃ text, (run markedDirectory ["g.json", "--diagnostics", "json"] markReader).map Outcome.delivered
        = .ok (text ++ ['\n'], none)
        ∧ (run markedDirectory ["g.json", "--policy", "strict"] .verbatim).map Outcome.delivered
          = .ok (text ++ ['\n'], none))
    ∧ ∃ result, p.render {} none = .ok result ∧ result.errorCount = data.rejectedCount ∧ result.warningCount = 0 := by
  obtain ⟨data, p, hmarked, htexts⟩ := exists_marked
  have hload := (of_programOf? hmarked).2
  obtain ⟨hcounts, hruns⟩ := exitCode_of_load hload htexts
  have hleads : ∀ strict,
      Request.LeadsTo { input := "g.json", strict, jsonDiagnostics := true } markedDirectory data :=
    fun strict => leadsTo_marked rfl rfl (fun path hpath => by cases hpath) hmarked
  -- What is said as a JSON document is not searched for marks.
  have hjson : ∀ arguments strict,
      understand arguments = .request { input := "g.json", strict, jsonDiagnostics := true } →
      ∃ o, run markedDirectory arguments markReader = .ok o ∧ o.ending = .exit (if strict then 1 else 0) := by
    intro arguments strict hunderstood
    obtain ⟨result, -, hconsole⟩ := hruns markedDirectory arguments _ hunderstood (hleads strict)
    obtain ⟨o, hrun, hending⟩ := (hconsole markReader).1 rfl fun note hnote => by
      rw [List.mem_singleton.1 hnote]
      rfl
    rw [(refused_marked _ hmarked).1, Bool.and_true] at hending
    exact ⟨o, hrun, hending⟩
  refine ⟨data, p, hload, htexts, hjson _ true rfl, hjson _ false rfl, ?_, hcounts {} none fun r hr => by cases hr⟩
  obtain ⟨result, -, hconsole⟩ := hruns markedDirectory ["g.json", "--diagnostics", "json"] _ rfl (hleads false)
  obtain ⟨-, -, hdelivers, hsame⟩ := hconsole markReader
  have hplain := hsame ["g.json", "--policy", "strict"] true false false .verbatim rfl
  exact ⟨result.text, hdelivers, hplain.trans hdelivers⟩

/-- A permissive run on a file with a rejected decorator does not leave 0 where the console refuses the name of the
model, nor where the document cannot be written. -/
theorem status_of_unprinted : ∃ data p, Program.load data = .ok p ∧ p.graph.HasTextNames
    ∧ (∃ r, understand ["g.json"] = .request r ∧ r.LeadsTo markedDirectory data ∧ r.strict = false
        ∧ r.obstacle? markedDirectory = none ∧ status (run markedDirectory ["g.json"] markReader) = 1)
    ∧ ∃ r, understand ["g.json", "-o", "g.json/"] = .request r ∧ r.LeadsTo markedDirectory data ∧ r.strict = false
        ∧ ∀ console, run markedDirectory ["g.json", "-o", "g.json/"] console = .error (.path .exists) := by
  obtain ⟨data, p, hmarked, htexts⟩ := exists_marked
  have hload := (of_programOf? hmarked).2
  have hfit := Program.isFit_of_load hload htexts
  have hleads : Request.LeadsTo { input := "g.json" } markedDirectory data :=
    leadsTo_marked rfl rfl (fun path hpath => by cases hpath) hmarked
  have hleads' : Request.LeadsTo { input := "g.json", outputDir := some "g.json/" } markedDirectory data := by
    refine leadsTo_marked rfl rfl (fun path hpath => ?_) hmarked
    cases hpath
    decide +kernel
  refine ⟨data, p, hload, htexts, ⟨_, rfl, hleads, rfl, rfl, ?_⟩, _, rfl, hleads', rfl, fun console => ?_⟩
  · obtain ⟨text, -, hresult⟩ := hfit.render_eq (Program.areRoutes_routes p) (Request.options { input := "g.json" })
    have hrefused := (refused_marked _ hmarked).2 _ (by rw [hresult]; rfl)
    rw [status_of_leadsTo rfl hleads hload hresult markReader, hrefused, Bool.or_true]
    rfl
  · have hobstacle : Request.obstacle? { input := "g.json", outputDir := some "g.json/" } markedDirectory
        = some .exists := by decide +kernel
    obtain ⟨text, -, hresult⟩ := hfit.render_eq (Program.areRoutes_routes p) (Request.options { input := "g.json" })
    have hunderstood : understand ["g.json", "-o", "g.json/"]
        = .request { input := "g.json", outputDir := some "g.json/" } := rfl
    obtain ⟨o, hrun, -⟩ := run_of_leadsTo hunderstood hleads' hload hresult console
    rw [hrun, hobstacle, Option.elim_some]

end Command

end Edm
