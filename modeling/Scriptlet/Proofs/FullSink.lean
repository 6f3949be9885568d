import Mathlib.Logic.Function.Iterate
import Scriptlet.Proofs.ReachedStatement
import Scriptlet.Proofs.ScopeRestoration

/-!
# A full sink only truncates

A run with a sink that has room for `r` bytes does what the unlimited run does up to the byte behind
these: with enough room it ends in the same way, and otherwise it is stopped at the print whose
line holds that byte, in the environment that the unlimited run has there. Both runs are
compared part by part; a part that follows another one finds the room that is left to it.
-/

namespace Scriptlet

/-- The bytes of the line on which a value is printed. -/
def Value.line (value : Value) : ByteArray := (value.text ++ "\n").toUTF8

/-- Of the output that comes after what `m` has written, the line that `value` is printed on by `p`
holds the byte with `r` bytes before it. -/
def Produces (m : Machine) (output : ByteArray) (r : Nat) (value : Value) (p : Machine) : Prop :=
  ∃ before after, p.sink.written = m.sink.written ++ before ∧
    output = before ++ value.line ++ after ∧ before.size ≤ r ∧ r < before.size + value.line.size

/-- The same result with another sink. -/
def withSink {α : Type} (sink : Sink) : EStateM.Result Halt Machine α → EStateM.Result Halt Machine α
  | .ok a m => .ok a { m with sink }
  | .error halt m => .error halt { m with sink }

/-- Which values are printed, on the line of which keyword, by which machine. -/
abbrev Prints := Token → Value → Machine → Prop

/-- The result is that the sink was full at a print that `prints` knows of, which produces the byte
behind the first `r` of the output; the scopes that are open there are closed. -/
def StopsAt {α : Type} (prints : Prints) (m : Machine) (output written : ByteArray) (r : Nat)
    (reason : String) (result : EStateM.Result Halt Machine α) : Prop :=
  ∃ keyword value p k, prints keyword value p ∧ Produces m output r value p ∧
    p.env.depth = m.env.depth + k ∧
    result = .error (.error ⟨.refusedOutput reason, keyword⟩)
      ⟨Environment.unnest^[k] p.env, ⟨written ++ output.extract 0 r, some 0, reason⟩⟩

/-- From the machine, which has an unlimited sink, the computation writes some output, and with any
limited sink it does the same as long as there is room. -/
structure Truncated {α : Type} (prints : Prints) (x : Exec α) (m : Machine) : Prop where
  depth : (finalState (x m)).env.depth = m.env.depth
  output : ∃ output, (finalState (x m)).sink = { m.sink with written := m.sink.written ++ output } ∧
    ∀ written r reason,
      (output.size ≤ r → x { m with sink := ⟨written, some r, reason⟩ } =
        withSink ⟨written ++ output, some (r - output.size), reason⟩ (x m)) ∧
      (r < output.size → StopsAt prints m output written r reason
        (x { m with sink := ⟨written, some r, reason⟩ }))

section bytes
variable {as bs : ByteArray} {r : Nat}

lemma extract_append_of_le (h : r ≤ as.size) : (as ++ bs).extract 0 r = as.extract 0 r := by
  rw [ByteArray.extract_append, Nat.sub_eq_zero_of_le h, Nat.zero_sub, ByteArray.extract_same,
    ByteArray.append_empty]

lemma extract_append_of_ge (h : as.size ≤ r) :
    (as ++ bs).extract 0 r = as ++ bs.extract 0 (r - as.size) := by
  have hall : as.extract 0 r = as := by
    rw [← Nat.max_eq_left h, ByteArray.extract_zero_max_size]
  rw [ByteArray.extract_append, hall, Nat.zero_sub]

end bytes

section produces
variable {m m' p : Machine} {output more : ByteArray} {r : Nat} {value : Value}

lemma Produces.append (h : Produces m output r value p) : Produces m (output ++ more) r value p := by
  obtain ⟨before, after, hwritten, rfl, hle, hlt⟩ := h
  exact ⟨before, after ++ more, hwritten, ByteArray.append_assoc, hle, hlt⟩

lemma Produces.shift (h : Produces m' more (r - output.size) value p) (hr : output.size ≤ r)
    (hm : m'.sink.written = m.sink.written ++ output) :
    Produces m (output ++ more) r value p := by
  obtain ⟨before, after, hwritten, rfl, hle, hlt⟩ := h
  refine ⟨output ++ before, after, ?_, ?_, ?_, ?_⟩
  · rw [hwritten, hm, ByteArray.append_assoc]
  · simp only [ByteArray.append_assoc]
  · rw [ByteArray.size_append]
    omega
  · rw [ByteArray.size_append]
    omega

end produces

namespace Truncated
variable {α β : Type} {prints prints' : Prints} {x : Exec α} {next : α → Exec β} {m : Machine}

lemma mono (h : Truncated prints x m) (hp : ∀ k v p, prints k v p → prints' k v p) :
    Truncated prints' x m := by
  obtain ⟨output, hsink, hlimited⟩ := h.output
  refine ⟨h.depth, output, hsink, fun written r reason => ⟨(hlimited written r reason).1, fun hr => ?_⟩⟩
  obtain ⟨keyword, value, p, k, hprint, hrest⟩ := (hlimited written r reason).2 hr
  exact ⟨keyword, value, p, k, hp _ _ _ hprint, hrest⟩

lemma of_silent (hdepth : (finalState (x m)).env.depth = m.env.depth)
    (hsink : (finalState (x m)).sink = m.sink)
    (hx : ∀ sink, x { m with sink } = withSink sink (x m)) : Truncated prints x m := by
  refine ⟨hdepth, .empty, ?_, fun written r reason => ⟨fun _ => ?_, fun hr => ?_⟩⟩
  · rw [hsink, ByteArray.append_empty]
  · rw [hx, ByteArray.append_empty]
    rfl
  · exact absurd hr (Nat.not_lt_zero r)

lemma pure (a : α) : Truncated prints (pure a) m := of_silent rfl rfl (fun _ => rfl)

end Truncated

section bind
variable {α β : Type} {prints : Prints} {x : Exec α} {next : α → Exec β} {m m' : Machine}
  {output more written : ByteArray} {r : Nat} {reason : String}

lemma Exec.bind_of_ok {a : α} (h : x m = .ok a m') : (x >>= next) m = next a m' := by
  simp only [Bind.bind, EStateM.bind, h]

lemma Exec.bind_of_error {halt : Halt} (h : x m = .error halt m') :
    (x >>= next) m = .error halt m' := by
  simp only [Bind.bind, EStateM.bind, h]

lemma StopsAt.bind {sink : Sink} (h : StopsAt prints m output written r reason (x { m with sink })) :
    StopsAt prints m output written r reason ((x >>= next) { m with sink }) := by
  obtain ⟨keyword, value, p, k, hprint, hproduces, hk, hstop⟩ := h
  exact ⟨keyword, value, p, k, hprint, hproduces, hk, Exec.bind_of_error hstop⟩

lemma StopsAt.append {result : EStateM.Result Halt Machine α} (hr : r ≤ output.size)
    (h : StopsAt prints m output written r reason result) :
    StopsAt prints m (output ++ more) written r reason result := by
  obtain ⟨keyword, value, p, k, hprint, hproduces, hk, hstop⟩ := h
  refine ⟨keyword, value, p, k, hprint, hproduces.append, hk, ?_⟩
  rw [hstop, extract_append_of_le hr]

lemma StopsAt.shift {result : EStateM.Result Halt Machine α} (hr : output.size ≤ r)
    (hdepth : m'.env.depth = m.env.depth) (hm : m'.sink.written = m.sink.written ++ output)
    (h : StopsAt prints m' more (written ++ output) (r - output.size) reason result) :
    StopsAt prints m (output ++ more) written r reason result := by
  obtain ⟨keyword, value, p, k, hprint, hproduces, hk, hstop⟩ := h
  refine ⟨keyword, value, p, k, hprint, hproduces.shift hr hm, hdepth ▸ hk, ?_⟩
  rw [hstop, extract_append_of_ge hr, ByteArray.append_assoc]

namespace Truncated

lemma bind_of_error {halt : Halt} (hm : x m = .error halt m') (hx : Truncated prints x m) :
    Truncated prints (x >>= next) m := by
  obtain ⟨hdepth, output, hsink, hlimited⟩ := hx
  have hbind : (x >>= next) m = .error halt m' := Exec.bind_of_error hm
  rw [hm] at hdepth hsink hlimited
  refine ⟨?_, output, ?_, fun written r reason => ⟨fun hr => ?_, fun hr => ?_⟩⟩
  · rw [hbind]
    exact hdepth
  · rw [hbind]
    exact hsink
  · rw [hbind]
    exact Exec.bind_of_error ((hlimited written r reason).1 hr)
  · exact ((hlimited written r reason).2 hr).bind

lemma bind_of_ok {a : α} (hm : x m = .ok a m') (hx : Truncated prints x m)
    (hnext : Truncated prints (next a) m') : Truncated prints (x >>= next) m := by
  obtain ⟨hdepth, output, hsink, hlimited⟩ := hx
  obtain ⟨hdepth', more, hsink', hlimited'⟩ := hnext
  have hbind : (x >>= next) m = next a m' := Exec.bind_of_ok hm
  rw [hm] at hdepth hsink hlimited
  have hsink : m'.sink = { m.sink with written := m.sink.written ++ output } := hsink
  have hwritten : m'.sink.written = m.sink.written ++ output := congrArg Sink.written hsink
  -- with room for the first output the second part starts with what is left of it
  have hlater (written : ByteArray) (r : Nat) (reason : String) (hr : output.size ≤ r) :
      (x >>= next) { m with sink := ⟨written, some r, reason⟩ } = next a { m' with sink :=
        ⟨written ++ output, some (r - output.size), reason⟩ } :=
    Exec.bind_of_ok ((hlimited written r reason).1 hr)
  refine ⟨?_, output ++ more, ?_, fun written r reason => ⟨fun hr => ?_, fun hr => ?_⟩⟩
  · rw [hbind]
    exact hdepth'.trans hdepth
  · rw [hbind, hsink', hsink, ByteArray.append_assoc]
  · rw [ByteArray.size_append] at hr
    rw [hbind, hlater written r reason (by omega), ByteArray.size_append, ← Nat.sub_sub,
      ← ByteArray.append_assoc]
    exact (hlimited' _ _ _).1 (by omega)
  · rcases Nat.lt_or_ge r output.size with hlt | hge
    · exact ((hlimited written r reason).2 hlt).bind.append (Nat.le_of_lt hlt)
    · rw [ByteArray.size_append] at hr
      rw [hlater written r reason hge]
      exact ((hlimited' _ _ _).2 (by omega)).shift hge hdepth hwritten

lemma bind (hroom : m.sink.room = none) (hx : Truncated prints x m)
    (hnext : ∀ a m', x m = .ok a m' → m'.sink.room = none → Truncated prints (next a) m') :
    Truncated prints (x >>= next) m := by
  cases hm : x m with
  | error halt m' => exact hx.bind_of_error hm
  | ok a m' =>
    refine hx.bind_of_ok hm (hnext a m' hm ?_)
    obtain ⟨output, hsink, -⟩ := hx.output
    rw [hm] at hsink
    exact (congrArg Sink.room hsink).trans hroom

end Truncated
end bind
section parts
variable {prints : Prints} {m : Machine}

lemma truncated_evaluate (e : Expr) : Truncated prints (Exec.evaluate e) m := by
  have hkept : ScopesKept [] m.env (finalState (Exec.evaluate e m)).env := keeps_evaluate e m
  refine Truncated.of_silent hkept.depth ?_ (fun sink => ?_)
  · unfold Exec.evaluate
    cases e.eval m.env <;> rfl
  · unfold Exec.evaluate
    dsimp only
    cases e.eval m.env <;> rfl

lemma truncated_define (name : String) (value : Value) :
    Truncated prints (Exec.define name value) m :=
  Truncated.of_silent (Environment.depth_define _ _ _) rfl (fun _ => rfl)

lemma Exec.write_unlimited {keyword : Token} {value : Value} (hroom : m.sink.room = none) :
    Exec.write keyword value m =
      .ok () { m with sink := { m.sink with written := m.sink.written ++ value.line } } := by
  obtain ⟨env, written, room, refusal⟩ := m
  obtain rfl : room = none := hroom
  rfl

lemma Exec.write_limited {keyword : Token} {value : Value} (written : ByteArray) (r : Nat)
    (reason : String) :
    Exec.write keyword value { m with sink := ⟨written, some r, reason⟩ } =
      if value.line.size ≤ r then
        .ok () { m with sink := ⟨written ++ value.line, some (r - value.line.size), reason⟩ }
      else .error (.error ⟨.refusedOutput reason, keyword⟩)
        { m with sink := ⟨written ++ value.line.extract 0 r, some 0, reason⟩ } := by
  unfold Exec.write Sink.write
  dsimp only
  rw [← Value.line]
  split <;> rfl

lemma truncated_write {keyword : Token} {value : Value} (hroom : m.sink.room = none)
    (hprint : prints keyword value m) : Truncated prints (Exec.write keyword value) m := by
  refine ⟨?_, value.line, ?_, fun written r reason => ⟨fun hr => ?_, fun hr => ?_⟩⟩
  · rw [Exec.write_unlimited hroom]
    rfl
  · rw [Exec.write_unlimited hroom]
    rfl
  · rw [Exec.write_limited, if_pos hr, Exec.write_unlimited hroom]
    rfl
  · rw [Exec.write_limited, if_neg (Nat.not_le_of_lt hr)]
    refine ⟨keyword, value, m, 0, hprint, ⟨.empty, .empty, ?_, ?_, Nat.zero_le r, ?_⟩, rfl, rfl⟩
    · rw [ByteArray.append_empty]
    · rw [ByteArray.empty_append, ByteArray.append_empty]
    · rwa [ByteArray.size_empty, Nat.zero_add]

lemma Environment.depth_unnest_of_depth {env : Environment} {n : Nat} (h : env.depth = n + 1)
    (hn : 0 < n) : env.unnest.depth = n := by
  cases env with
  | global scope => exact absurd (Nat.succ.inj h) (Nat.ne_of_lt hn)
  | inside scope outer => exact Nat.succ.inj h

lemma finalState_inScope {act : Exec Unit} :
    finalState (Exec.inScope act m) =
      { finalState (act { m with env := m.env.nest }) with
        env := (finalState (act { m with env := m.env.nest })).env.unnest } := by
  unfold Exec.inScope
  cases act { m with env := m.env.nest } <;> rfl

lemma truncated_inScope {act : Exec Unit}
    (h : Truncated prints act { m with env := m.env.nest }) :
    Truncated prints (Exec.inScope act) m := by
  obtain ⟨hdepth, output, hsink, hlimited⟩ := h
  refine ⟨?_, output, ?_, fun written r reason => ⟨fun hr => ?_, fun hr => ?_⟩⟩
  · rw [finalState_inScope]
    exact Environment.depth_unnest_of_depth hdepth m.env.depth_pos
  · rw [finalState_inScope]
    exact hsink
  · have hact := (hlimited written r reason).1 hr
    unfold Exec.inScope
    dsimp only at hact ⊢
    rw [hact]
    cases act { m with env := m.env.nest } <;> rfl
  · obtain ⟨keyword, value, p, k, hprint, hproduces, hk, hstop⟩ := (hlimited written r reason).2 hr
    -- the scope that is left is one more of those that are closed
    refine ⟨keyword, value, p, k + 1, hprint, hproduces, ?_, ?_⟩
    · rw [hk, Environment.depth_nest, Nat.add_assoc, Nat.add_comm 1]
    · unfold Exec.inScope
      dsimp only at hstop ⊢
      rw [hstop, Function.iterate_succ_apply']

end parts

/-- The prints among the statements that a run comes to, after their expressions were evaluated. -/
def printsAmong (reached : Stmt → Machine → Prop) : Prints := fun keyword value p =>
  ∃ e q, reached (.print keyword e) q ∧ Exec.evaluate e q = .ok value p

lemma printsAmong_mono {reached reached' : Stmt → Machine → Prop}
    (h : ∀ s m, reached s m → reached' s m) (keyword : Token) (value : Value) (p : Machine)
    (hp : printsAmong reached keyword value p) : printsAmong reached' keyword value p := by
  obtain ⟨e, q, hreached, he⟩ := hp
  exact ⟨e, q, h _ _ hreached, he⟩

section execution
variable {rounds n : Nat} {m : Machine}
open Stmt

lemma truncated_loop {condition : Expr} {body : Stmt}
    (hbody : ∀ m, m.sink.room = none →
      Truncated (printsAmong (Reaches rounds body m)) (body.exec rounds) m)
    (hroom : m.sink.room = none) :
    Truncated (printsAmong (ReachesLoop rounds condition body n m))
      (Exec.loop condition (body.exec rounds) n) m := by
  induction n generalizing m with
  | zero => exact Truncated.of_silent rfl rfl (fun _ => rfl)
  | succ n ih =>
    rw [Exec.loop_succ]
    refine (truncated_evaluate condition).bind hroom (fun value m₁ hc hroom₁ => ?_)
    split
    · rename_i hv
      apply Truncated.bind hroom₁
      · exact (hbody m₁ hroom₁).mono (printsAmong_mono (fun _ _ h => .now hc hv h))
      · intro _ m₂ hb hroom₂
        exact (ih hroom₂).mono (printsAmong_mono (fun _ _ h => .later hc hv hb h))
    · exact Truncated.pure ()

mutual

theorem truncated_exec (rounds : Nat) (s : Stmt) (m : Machine) (hroom : m.sink.room = none) :
    Truncated (printsAmong (Reaches rounds s m)) (s.exec rounds) m := by
  match s with
  | .expr e => exact (truncated_evaluate e).bind hroom (fun _ _ _ _ => Truncated.pure ())
  | .print keyword e =>
    exact (truncated_evaluate e).bind hroom (fun value m₁ he hroom₁ =>
      truncated_write hroom₁ ⟨e, m, .self, he⟩)
  | .declare name none => exact truncated_define name.lexeme .nil
  | .declare name (some e) =>
    exact (truncated_evaluate e).bind hroom (fun value _ _ _ => truncated_define name.lexeme value)
  | .block body =>
    have hbody := truncated_execAll rounds body { m with env := m.env.nest } hroom
    exact truncated_inScope (hbody.mono (printsAmong_mono (fun _ _ h => .block h)))
  | .ifThen condition yes =>
    refine (truncated_evaluate condition).bind hroom (fun value m₁ hc hroom₁ => ?_)
    split
    · rename_i hv
      exact (truncated_exec rounds yes m₁ hroom₁).mono
        (printsAmong_mono (fun _ _ h => .ifThen hc hv h))
    · exact Truncated.pure ()
  | .ifElse condition yes no =>
    refine (truncated_evaluate condition).bind hroom (fun value m₁ hc hroom₁ => ?_)
    split
    · rename_i hv
      exact (truncated_exec rounds yes m₁ hroom₁).mono
        (printsAmong_mono (fun _ _ h => .ifElse hc (by rwa [if_pos hv])))
    · rename_i hv
      exact (truncated_exec rounds no m₁ hroom₁).mono
        (printsAmong_mono (fun _ _ h => .ifElse hc (by rwa [if_neg hv])))
  | .whileDo condition body =>
    exact (truncated_loop (fun m' hroom' => truncated_exec rounds body m' hroom') hroom).mono
      (printsAmong_mono (fun _ _ h => .whileDo h))

theorem truncated_execAll (rounds : Nat) (body : List Stmt) (m : Machine)
    (hroom : m.sink.room = none) :
    Truncated (printsAmong (ReachesAll rounds body m)) (execAll rounds body) m := by
  match body with
  | [] => exact Truncated.pure ()
  | s :: rest =>
    apply Truncated.bind hroom
    · exact (truncated_exec rounds s m hroom).mono (printsAmong_mono (fun _ _ h => .head h))
    · intro _ m₁ hm hroom₁
      exact (truncated_execAll rounds rest m₁ hroom₁).mono
        (printsAmong_mono (fun _ _ h => .tail hm h))

end

end execution
namespace Machine
variable {rounds : Nat} {m m' : Machine} {statements : List Stmt} {result : Option RuntimeError}

/-- A run with an unlimited sink that ends has some output. With room for all of it a limited sink
makes no difference; else the run is stopped at the print that produces the first byte without room. -/
theorem interpret_truncated (hroom : m.sink.room = none)
    (h : m.interpret rounds statements = some (result, m')) :
    ∃ output, m'.sink.written = m.sink.written ++ output ∧ ∀ written r reason,
      (output.size ≤ r →
        interpret rounds { m with sink := ⟨written, some r, reason⟩ } statements =
          some (result, { m' with sink := ⟨written ++ output, some (r - output.size), reason⟩ })) ∧
      (r < output.size → ∃ error keyword value p k,
        printsAmong (Stmt.ReachesAll rounds statements m) keyword value p ∧
        Produces m output r value p ∧ p.env.depth = m.env.depth + k ∧
        error.token = keyword ∧ error.message = "failed to write output: " ++ reason ++ "." ∧
        interpret rounds { m with sink := ⟨written, some r, reason⟩ } statements =
          some (some error, ⟨Environment.unnest^[k] p.env,
            ⟨written ++ output.extract 0 r, some 0, reason⟩⟩)) := by
  obtain ⟨-, output, hsink, hlimited⟩ := truncated_execAll rounds statements m hroom
  have hwritten := congrArg Sink.written hsink
  refine ⟨output, ?_, fun written r reason => ⟨fun hr => ?_, fun hr => ?_⟩⟩
  · unfold interpret at h
    split at h <;> rename_i hrun <;> cases h <;>
    · rw [hrun] at hwritten
      exact hwritten
  · unfold interpret at h ⊢
    rw [(hlimited written r reason).1 hr]
    split at h <;> rename_i hrun <;> cases h <;>
    · rw [hrun]
      rfl
  · obtain ⟨keyword, value, p, k, hprint, hproduces, hk, hstop⟩ := (hlimited written r reason).2 hr
    refine ⟨⟨.refusedOutput reason, keyword⟩, keyword, value, p, k, hprint, hproduces, hk, rfl, rfl, ?_⟩
    unfold interpret
    rw [hstop]

/-- Prints `ab` and, inside of a block, the new variable `x`. -/
def twoLines : List Stmt :=
  let x : Token := ⟨.identifier, "x", none, 2⟩
  [.print keywordPrint (.literal (.string "ab")),
    .block [.declare x none, .print { keywordPrint with line := 2 } (.ref x)]]

theorem interpret_truncated_twoLines :
    ∃ m' output, (initial .unlimited).interpret 0 twoLines = some (none, m') ∧
      m'.sink.written = .empty ++ output ∧ 4 < output.size ∧
      ∃ error keyword value p k,
        printsAmong (Stmt.ReachesAll 0 twoLines (initial .unlimited)) keyword value p ∧
        Produces (initial .unlimited) output 4 value p ∧ p.env.depth = 1 + k ∧
        error.token = keyword ∧ error.message = "failed to write output: sink full." ∧
        (initial (.limited 4)).interpret 0 twoLines = some (some error,
          ⟨Environment.unnest^[k] p.env, ⟨.empty ++ output.extract 0 4, some 0, "sink full"⟩⟩) := by
  have hrun : (initial .unlimited).interpret 0 twoLines = some (none,
      ⟨.initial, (((Sink.write .unlimited "ab\n").1.write "nil\n").1)⟩) := rfl
  obtain ⟨output, hwritten, hcut⟩ := interpret_truncated rfl hrun
  have hsize : output.size = 7 := by
    have hseven := congrArg ByteArray.size hwritten
    rw [ByteArray.size_append] at hseven
    have hbytes : (((Sink.write .unlimited "ab\n").1.write "nil\n").1).written.size = 7 := by
      decide +kernel
    rw [hbytes] at hseven
    exact (hseven.trans (Nat.zero_add _)).symm
  have hfour : 4 < output.size := by
    rw [hsize]
    decide
  exact ⟨_, output, hrun, hwritten, hfour, (hcut .empty 4 "sink full").2 hfour⟩

end Machine
end Scriptlet
