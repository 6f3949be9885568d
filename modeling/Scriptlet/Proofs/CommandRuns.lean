import Scriptlet.Command.Transcript
import Scriptlet.Proofs.SessionRuns

/-!
# What the command shows of a session

The command adds dumps and prompts between the runs of a session, which do not notice them. A script
is one run, whose findings decide the exit code. The prompt is one run for each line of input, up to
the first line that is no text.
-/

namespace Scriptlet

namespace Machine
variable {rounds : Nat} {m : Machine}

lemma print_showing (hroom : m.sink.room = none) (written : ByteArray) (text : String) :
    Command.print (m.showing written) text = m.showing (written ++ text.toUTF8) := by
  obtain ⟨env, bytes, room, refusal⟩ := m
  obtain rfl : room = none := hroom
  rfl

end Machine

namespace Command
variable {rounds : Nat} {m last : Machine} {o : Options} {source : String} {found : Diagnostics}
  {m' : Machine} {runs : List Run} {sources : List String}

lemma enter_showing (hroom : m.sink.room = none) (h : m.run rounds source = some (found, m'))
    (written : ByteArray) :
    enter rounds o (m.showing written) source = some (found, m'.showing
      (written ++ (dump o source).toUTF8 ++ Run.output ⟨source, m, found, m'⟩)) := by
  rw [enter, Machine.print_showing hroom, Machine.run_showing h]

lemma run_bind_of_eq {α β : Type} {x : StateM Tape α} {f : α → StateM Tape β} {t t' : Tape} {a : α}
    (h : x.run t = (a, t')) : (x >>= f).run t = (f a).run t' := by
  rw [StateT.run_bind, h]
  rfl

lemma submit_eq (hroom : m.sink.room = none) (h : m.run rounds source = some (found, m'))
    (written : ByteArray) (t : Tape) :
    (submit Tape.streams rounds o (m.showing written) source).run t =
      (some (found, m'.showing ((dump o source).toUTF8 ++ Run.output ⟨source, m, found, m'⟩)),
        { t with
          stdout := t.stdout ++ ((dump o source).toUTF8 ++ Run.output ⟨source, m, found, m'⟩)
          stderr := t.stderr ++ found.text }) := by
  have henter : enter rounds o (m.showing .empty) source = _ := enter_showing hroom h .empty
  rw [ByteArray.empty_append] at henter
  have hemptied : { m.showing written with
      sink := { (m.showing written).sink with written := .empty } } = m.showing .empty := rfl
  unfold submit
  rw [hemptied, henter]
  rfl

lemma readText_of_some {content : ByteArray} (h : String.fromUTF8? content = some source) :
    readText (.ok content) = .ok source := by
  simp only [readText, bind, Except.bind, h]

lemma readText_of_none {content : ByteArray} (h : String.fromUTF8? content = none) :
    readText (.ok content) = .error .notText := by
  simp only [readText, bind, Except.bind, h]

lemma runScript_eq {content : ByteArray} (path : String)
    (hcontent : String.fromUTF8? content = some source)
    (h : (Machine.initial .unlimited).run rounds source = some (found, m')) (t : Tape) :
    (runScript Tape.streams rounds o path (.ok content)).run t =
      (some (exitCode found), { t with
        stdout := t.stdout ++
          ((dump o source).toUTF8 ++ Run.output ⟨source, .initial .unlimited, found, m'⟩)
        stderr := t.stderr ++ found.text }) := by
  have hsubmit := submit_eq (o := o) rfl h .empty t
  unfold runScript
  rw [readText_of_some hcontent]
  exact run_bind_of_eq hsubmit

lemma transcript_of_call {readFile : String → Except ReadFault ByteArray} {stdin : ByteArray}
    {args : List String} {code : Nat} {t : Tape}
    (h : (call Tape.streams (fun path => pure (readFile path)) rounds
      ((cutLines stdin.toList).length + 1) args).run ⟨cutLines stdin.toList, .empty, ""⟩ =
        (some code, t)) :
    transcript rounds readFile stdin args = some ⟨code, t.stdout, t.stderr⟩ := by
  unfold transcript
  dsimp only
  rw [h]
  rfl

lemma exitCode_iff (h : Run.Reported ⟨source, m, found, m'⟩) :
    (exitCode found = 65 ↔ ¬ Accepted source) ∧
      (exitCode found = 70 ↔ Accepted source ∧ ∃ e : RuntimeError, found.all = [e.diagnostic]) ∧
      (exitCode found = 0 ↔ Accepted source ∧ found.all = []) := by
  by_cases hsource : Accepted source
  · have hstatic : found.hadError = false :=
      Bool.eq_false_iff.mpr (fun hyes => h.hadError_iff.mp hyes hsource)
    have hfound : found.all = [] ∨ ∃ e : RuntimeError, found.all = [e.diagnostic] :=
      h.accepted hsource
    rw [exitCode, hstatic, Diagnostics.hadRuntimeError]
    obtain hnone | ⟨e, he⟩ := hfound
    · rw [hnone]
      simp [hsource]
    · have hruntime : [e.diagnostic].any Diagnostic.isRuntime = true := rfl
      rw [he, hruntime]
      simp [hsource]
  · rw [exitCode, h.hadError_iff.mpr hsource]
    simp [hsource]

/-- In a session a rejected source is reported with all of its errors and changes nothing, and an
accepted one is reported with one runtime error at most; the rejected sources may as well be left
out. A script is such a source, and the case that it falls under decides the exit code. -/
theorem session_reports (rounds : Nat) (m : Machine) (sources : List String) :
    (∀ runs last, m.runAll rounds sources = some (runs, last) →
      runs.map Run.source = sources ∧ ∀ r ∈ runs, r.Reported) ∧
    m.runAll rounds (sources.filter Accepted) = (m.runAll rounds sources).map
      (fun (runs, last) => (runs.filter (fun r => Accepted r.source), last)) ∧
    ∀ readFile stdin args path tokens tree content source found m',
      Request.ofArgs args = .run ⟨some path, tokens, tree, false⟩ → readFile path = .ok content →
      String.fromUTF8? content = some source →
      (Machine.initial .unlimited).run rounds source = some (found, m') →
      ∃ t, transcript rounds readFile stdin args = some t ∧ t.stderr = found.text ∧
        t.stdout = (dump ⟨some path, tokens, tree, false⟩ source).toUTF8 ++ m'.sink.written ∧
        (t.code = 65 → t.stdout = (dump ⟨some path, tokens, tree, false⟩ source).toUTF8) ∧
        (t.code = 65 ↔ ¬ Accepted source) ∧
        (t.code = 70 ↔ Accepted source ∧ ∃ e : RuntimeError, found.all = [e.diagnostic]) ∧
        (t.code = 0 ↔ Accepted source ∧ found.all = []) := by
  refine ⟨fun runs last h => Machine.runAll_reported h, Machine.runAll_filter rounds m sources, ?_⟩
  intro readFile stdin args path tokens tree content source found m' hargs hfile htext hrun
  have hreported := Machine.run_reported hrun
  have houtput : Run.output ⟨source, .initial .unlimited, found, m'⟩ = m'.sink.written :=
    ByteArray.extract_zero_size
  have hscript : transcript rounds readFile stdin args = some ⟨exitCode found,
      (dump ⟨some path, tokens, tree, false⟩ source).toUTF8 ++ m'.sink.written, found.text⟩ := by
    have hcall := runScript_eq (o := ⟨some path, tokens, tree, false⟩) path htext hrun
      ⟨cutLines stdin.toList, .empty, ""⟩
    rw [houtput, ByteArray.empty_append, String.empty_append] at hcall
    refine transcript_of_call (t := ⟨cutLines stdin.toList, _, _⟩) ?_
    unfold call
    rw [hargs]
    dsimp only
    rw [pure_bind, hfile]
    exact hcall
  have hcodes := exitCode_iff hreported
  refine ⟨_, hscript, rfl, rfl, fun hcode => ?_, hcodes⟩
  have hkept : m' = .initial .unlimited := (hreported.rejected (hcodes.1.mp hcode)).2
  rw [hkept]
  exact ByteArray.append_empty

lemma fromUTF8?_toUTF8 (text : String) : String.fromUTF8? text.toUTF8 = some text := by
  unfold String.fromUTF8?
  rw [String.toUTF8_eq_toByteArray, dif_pos text.isValidUTF8]
  rfl

theorem session_reports_unfinished :
    (∃ runs last, (Machine.initial .unlimited).runAll 1
        ["var x;", "print ;", "print -x;"] = some (runs, last) ∧
      runs.map Run.source = ["var x;", "print ;", "print -x;"] ∧ ∀ r ∈ runs, r.Reported) ∧
    Request.ofArgs ["--tokens", "demo"] = .run ⟨some "demo", true, false, false⟩ ∧
    ∃ t, transcript 1 (fun _ => .ok "print ;".toUTF8) .empty ["--tokens", "demo"] = some t ∧
      t.code = 65 ∧ t.stdout = (dump ⟨some "demo", true, false, false⟩ "print ;").toUTF8 := by
  have hsome : ((Machine.initial .unlimited).runAll 1
      ["var x;", "print ;", "print -x;"]).isSome := by decide +kernel
  obtain ⟨⟨runs, last⟩, hruns⟩ := Option.isSome_iff_exists.mp hsome
  have hargs : Request.ofArgs ["--tokens", "demo"] = .run ⟨some "demo", true, false, false⟩ := by
    decide +kernel
  have hrejected : ¬ Accepted "print ;" := by decide +kernel
  obtain ⟨hreported, -, hscript⟩ := session_reports 1 (.initial .unlimited)
    ["var x;", "print ;", "print -x;"]
  obtain ⟨t, ht, -, -, hdumps, hcode, -⟩ := hscript (fun _ => .ok "print ;".toUTF8) .empty
    ["--tokens", "demo"] "demo" true false _ "print ;" _ _ hargs rfl (fromUTF8?_toUTF8 _)
    (Machine.run_of_rejected hrejected)
  have hcode' := hcode.mpr hrejected
  exact ⟨⟨runs, last, hruns, hreported runs last hruns⟩, hargs, t, ht, hcode', hdumps hcode'⟩

/-- Bytes are cut after each line feed: lines that end with their only line feed, and behind them a
last one without, unless that is empty. -/
def LineCut (bytes : List UInt8) (lines : List (List UInt8)) : Prop :=
  ∃ full last, (∀ line ∈ full ++ [last], 10 ∉ line) ∧
    bytes = (full.map (· ++ [10])).flatten ++ last ∧
    lines = full.map (· ++ [10]) ++ if last = [] then [] else [last]

lemma lineCut_cutLines (bytes : List UInt8) : LineCut bytes (cutLines bytes) := by
  induction bytes with
  | nil => exact ⟨[], [], by simp, rfl, rfl⟩
  | cons b rest ih =>
    obtain ⟨full, last, hfree, hbytes, hlines⟩ := ih
    rw [cutLines, hlines]
    by_cases hb : b = 10
    · subst hb
      refine ⟨[] :: full, last, ?_, ?_, ?_⟩
      · exact List.forall_mem_cons.mpr ⟨List.not_mem_nil, hfree⟩
      · rw [hbytes]
        rfl
      · rw [if_pos rfl]
        rfl
    · have hcons {line : List UInt8} (hline : 10 ∉ line) : 10 ∉ b :: line :=
        fun hmem => (List.mem_cons.mp hmem).elim (fun heq => hb heq.symm) hline
      rw [if_neg hb]
      cases full with
      | nil =>
        have hlast : 10 ∉ last := hfree last List.mem_cons_self
        refine ⟨[], b :: last, ?_, ?_, ?_⟩
        · exact List.forall_mem_cons.mpr ⟨hcons hlast, by simp⟩
        · rw [hbytes]
          rfl
        · cases last <;> rfl
      | cons line full =>
        obtain ⟨hline, hmore⟩ := List.forall_mem_cons.mp hfree
        refine ⟨(b :: line) :: full, last, ?_, ?_, ?_⟩
        · exact List.forall_mem_cons.mpr ⟨hcons hline, hmore⟩
        · rw [hbytes]
          rfl
        · rfl

/-- The text of a line of input, if it is one. -/
def decode (line : List UInt8) : Option String := String.fromUTF8? ⟨line.toArray⟩

/-- What the prompt shows for each run: itself, the dumps, and the output of the run. -/
def shown (o : Options) : List Run → ByteArray
  | [] => .empty
  | r :: rest => promptText.toUTF8 ++ (dump o r.source).toUTF8 ++ r.output ++ shown o rest

/-- What was found in each run, in order. -/
def reported (runs : List Run) : String := String.join (runs.map (fun r => r.found.text))

section prompt
variable {line : List UInt8} {later : List (List UInt8)} {turns : Nat} {stdout : ByteArray}
  {stderr : String}

lemma readLine_eq (t : Tape) :
    Tape.streams.readLine.run { t with input := line :: t.input } =
      ((readText (.ok ⟨line.toArray⟩)).map some, t) := rfl

lemma write_eq (bytes : ByteArray) (t : Tape) :
    (Tape.streams.write bytes).run t = ((), { t with stdout := t.stdout ++ bytes }) := rfl

lemma runPrompt_line {t : Tape} (hline : decode line = some source)
    (h : (submit Tape.streams rounds o m source).run
      ⟨later, stdout ++ promptText.toUTF8, stderr⟩ = (some (found, m'), t)) :
    (runPrompt Tape.streams rounds o (turns + 1) m).run ⟨line :: later, stdout, stderr⟩ =
      (runPrompt Tape.streams rounds o turns m').run t := by
  rw [runPrompt, run_bind_of_eq (write_eq _ _),
    run_bind_of_eq (readLine_eq ⟨later, stdout ++ promptText.toUTF8, stderr⟩),
    readText_of_some hline]
  exact run_bind_of_eq h

lemma runPrompt_broken (hline : decode line = none) :
    (runPrompt Tape.streams rounds o (turns + 1) m).run ⟨line :: later, stdout, stderr⟩ =
      (some 74, ⟨later, stdout ++ promptText.toUTF8, stderr ++
        Diagnostics.text ⟨[.unreadable "input" ReadFault.notText.reason]⟩⟩) := by
  rw [runPrompt, run_bind_of_eq (write_eq _ _),
    run_bind_of_eq (readLine_eq ⟨later, stdout ++ promptText.toUTF8, stderr⟩),
    readText_of_none hline]
  rfl

lemma runPrompt_append {lines : List (List UInt8)} (later : List (List UInt8)) (turns : Nat)
    (htext : lines.map decode = sources.map some)
    (hruns : m.runAll rounds sources = some (runs, last)) (hroom : m.sink.room = none)
    (written stdout : ByteArray) (stderr : String) : ∃ written',
    (runPrompt Tape.streams rounds o (lines.length + turns) (m.showing written)).run
        ⟨lines ++ later, stdout, stderr⟩ =
      (runPrompt Tape.streams rounds o turns (last.showing written')).run
        ⟨later, stdout ++ shown o runs, stderr ++ reported runs⟩ := by
  induction sources generalizing lines m runs written stdout stderr with
  | nil =>
    obtain rfl : lines = [] := List.map_eq_nil_iff.mp htext
    cases hruns
    refine ⟨written, ?_⟩
    rw [shown, ByteArray.append_empty, reported, List.map_nil, String.join_nil, String.append_empty,
      List.length_nil, Nat.zero_add, List.nil_append]
  | cons source sources ih =>
    obtain ⟨line, lines, rfl, hline, hlines⟩ := List.map_eq_cons_iff.mp htext
    obtain ⟨found, m', more, hrun, hmore, rfl⟩ := Machine.runAll_cons hruns
    obtain ⟨written', hih⟩ := ih hlines hmore (Machine.room_run hroom hrun) _ _ _
    refine ⟨written', ?_⟩
    rw [List.cons_append, List.length_cons, Nat.succ_add,
      runPrompt_line hline (submit_eq hroom hrun written _), hih, reported, reported, List.map_cons,
      String.join_cons, shown]
    simp only [ByteArray.append_assoc, String.append_assoc]

end prompt

/-- The prompt is a session over the lines of its input, up to the first one that is no text. -/
theorem prompt_folds_session {args : List String} {tokens tree : Bool}
    {lines rest : List (List UInt8)} (readFile : String → Except ReadFault ByteArray)
    (stdin : ByteArray) (hargs : Request.ofArgs args = .run ⟨none, tokens, tree, false⟩)
    (hlines : cutLines stdin.toList = lines ++ rest) (htext : lines.map decode = sources.map some)
    (hruns : (Machine.initial .unlimited).runAll rounds sources = some (runs, last)) :
    LineCut stdin.toList (cutLines stdin.toList) ∧
      (rest = [] → transcript rounds readFile stdin args =
        some ⟨0, shown ⟨none, tokens, tree, false⟩ runs ++ "> ".toUTF8, reported runs⟩) ∧
      ∀ bad later, rest = bad :: later → decode bad = none →
        transcript rounds readFile stdin args =
          some ⟨74, shown ⟨none, tokens, tree, false⟩ runs ++ "> ".toUTF8,
            reported runs ++ "could not read input: stream did not contain valid UTF-8\n"⟩ := by
  have htranscript (code : Nat) (t : Tape)
      (h : ∀ m, (runPrompt Tape.streams rounds ⟨none, tokens, tree, false⟩ (rest.length + 1) m).run
        ⟨rest, shown ⟨none, tokens, tree, false⟩ runs, reported runs⟩ = (some code, t)) :
      transcript rounds readFile stdin args = some ⟨code, t.stdout, t.stderr⟩ := by
    obtain ⟨written', hrun⟩ := runPrompt_append (o := ⟨none, tokens, tree, false⟩) rest
      (rest.length + 1) htext hruns rfl .empty .empty ""
    rw [ByteArray.empty_append, String.empty_append, h] at hrun
    refine transcript_of_call ?_
    unfold call
    rw [hargs, hlines, List.length_append, Nat.add_assoc]
    exact hrun
  refine ⟨lineCut_cutLines stdin.toList, ?_, ?_⟩
  · rintro rfl
    exact htranscript 0 ⟨[], _, _⟩ (fun _ => rfl)
  · rintro bad later rfl hbad
    exact htranscript 74 ⟨later, _, _⟩ (fun _ => runPrompt_broken hbad)

lemma decode_utf8 (text : String) : decode text.toUTF8.data.toList = some text := by
  rw [decode, Array.toArray_toList, fromUTF8?_toUTF8]

/-- Two lines, a byte that is no text on a third one, and a fourth line. -/
def brokenInput : ByteArray := "print nil;\nprint ;\n".toUTF8 ++ ⟨#[255, 10]⟩ ++ "print 1;".toUTF8

theorem prompt_folds_session_broken :
    Request.ofArgs ["--ast"] = .run ⟨none, false, true, false⟩ ∧
      cutLines brokenInput.toList = ["print nil;\n".toUTF8.data.toList,
        "print ;\n".toUTF8.data.toList] ++ [[255, 10], "print 1;".toUTF8.data.toList] ∧
      ∃ runs last, (Machine.initial .unlimited).runAll 0 ["print nil;\n", "print ;\n"] =
          some (runs, last) ∧
        transcript 0 (fun _ => .error .notFound) brokenInput ["--ast"] =
          some ⟨74, shown ⟨none, false, true, false⟩ runs ++ "> ".toUTF8,
            reported runs ++ "could not read input: stream did not contain valid UTF-8\n"⟩ := by
  have hargs : Request.ofArgs ["--ast"] = .run ⟨none, false, true, false⟩ := by decide +kernel
  have hlines : cutLines brokenInput.toList = ["print nil;\n".toUTF8.data.toList,
      "print ;\n".toUTF8.data.toList] ++ [[255, 10], "print 1;".toUTF8.data.toList] := by
    decide +kernel
  have hsome : ((Machine.initial .unlimited).runAll 0 ["print nil;\n", "print ;\n"]).isSome := by
    decide +kernel
  obtain ⟨⟨runs, last⟩, hruns⟩ := Option.isSome_iff_exists.mp hsome
  have htext : (["print nil;\n".toUTF8.data.toList, "print ;\n".toUTF8.data.toList].map decode) =
      ["print nil;\n", "print ;\n"].map some := by
    rw [List.map_cons, List.map_cons, decode_utf8, decode_utf8]
    rfl
  have hbad : decode [255, 10] = none := by decide +kernel
  obtain ⟨-, -, hbroken⟩ := prompt_folds_session (fun _ => .error .notFound) brokenInput hargs
    hlines htext hruns
  exact ⟨hargs, hlines, runs, last, hruns, hbroken _ _ rfl hbad⟩

end Command
end Scriptlet
