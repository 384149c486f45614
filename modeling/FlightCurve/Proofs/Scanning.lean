import FlightCurve.Outcome
import FlightCurve.Proofs.Flattening

/-!
The tokens that scanning cuts a source into. A token of a kind that is written in one way only has
that text.
-/

namespace FlightCurve

namespace Lexer

theorem symbolAt?_spelling {cs : List Char} {kind : Kind} {n : Nat}
    (h : symbolAt? cs = some (kind, n)) : kind.spelling? = some (String.ofList (cs.take n)) := by
  unfold symbolAt? at h
  split at h
  · cases h
    rfl
  · rename_i c rest _
    rw [Option.map_eq_some_iff] at h
    obtain ⟨symbol, hsymbol, h⟩ := h
    cases h
    unfold symbol? at hsymbol
    split at hsymbol <;> cases hsymbol <;> rfl
  · cases h

theorem tokenAt?_spelling {cs : List Char} {kind : Kind} {n : Nat}
    (h : tokenAt? cs = some (kind, n)) :
    ∀ text ∈ kind.spelling?, String.ofList (cs.take n) = text := by
  intro text htext
  unfold tokenAt? at h
  split at h
  · cases h
    cases htext
  · split at h
    · cases h
      cases htext
    · rw [symbolAt?_spelling h] at htext
      cases htext
      rfl

theorem tokenAt?_ne_eof {cs : List Char} {n : Nat} : tokenAt? cs ≠ some (.eof, n) := by
  intro h
  unfold tokenAt? at h
  split at h
  · cases h
  · split at h
    · cases h
    · unfold symbolAt? at h
      split at h
      · cases h
      · rename_i c rest _
        rw [Option.map_eq_some_iff] at h
        obtain ⟨symbol, hsymbol, h⟩ := h
        cases h
        unfold symbol? at hsymbol
        split at hsymbol <;> cases hsymbol
      · cases h

/-- What holds of every token that may begin somewhere holds of the tokens of a source. -/
theorem forall_mem_scanFrom {P : Token → Prop}
    (hP : ∀ cs kind n p, tokenAt? cs = some (kind, n) → P ⟨kind, String.ofList (cs.take n), p⟩)
    (p : Position) (cs : List Char) {s : Scanned} (h : scanFrom p cs = .ok s) :
    ∀ tok ∈ s.tokens, P tok := by
  induction hlength : cs.length using Nat.strongRecOn generalizing p cs s with
  | _ n ih =>
      cases cs with
      | nil =>
          rw [scanFrom] at h
          cases h
          intro tok htok
          cases htok
      | cons c rest =>
          rw [scanFrom] at h
          split at h
          · exact ih rest.length (by rw [← hlength]; exact Nat.lt_succ_self _) _ _ h rfl
          · split at h
            · cases h
            · rename_i kind length hat
              obtain ⟨after, hafter, h⟩ := Outcome.bind_eq_ok_iff.1 h
              cases h
              have hpos := tokenAt?_pos hat
              have hlt : ((c :: rest).drop length).length < n := by
                rw [List.length_drop, hlength]
                rw [List.length_cons] at hlength
                omega
              have hrest := ih _ hlt _ _ hafter rfl
              exact List.forall_mem_cons.2 ⟨hP _ _ _ _ hat, hrest⟩

end Lexer

/-- Every token of a source is spelled as its kind demands. -/
theorem spelled_of_scan {source : String} {s : Scanned} (h : scan source = .ok s) :
    ∀ tok ∈ s.tokens, tok.Spelled :=
  Lexer.forall_mem_scanFrom (fun _ _ _ _ hat => Lexer.tokenAt?_spelling hat) _ _ h

/-- The end of a source is none of its tokens. -/
theorem kind_ne_eof_of_scan {source : String} {s : Scanned} (h : scan source = .ok s) :
    ∀ tok ∈ s.tokens, tok.kind ≠ .eof := by
  refine Lexer.forall_mem_scanFrom ?_ _ _ h
  rintro cs kind n p hat rfl
  exact Lexer.tokenAt?_ne_eof hat

end FlightCurve
