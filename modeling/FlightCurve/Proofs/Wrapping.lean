import Mathlib.Data.List.Basic
import FlightCurve.Reference

/-!
Names in lines. The lines hold the names in their order, group after group; a line is closed by a
comma, and only where the next name and its comma would not fit into the width.

The loop carries the text of the line that is open. For the induction this text is read as the names
of a group, which is why no name may be empty: the empty text stands for a line not yet begun.
-/

namespace FlightCurve.Reference

/-- The text with a blank in place of each line feed that follows a comma. -/
def unwrap : List Char → List Char
  | ',' :: '\n' :: cs => ',' :: ' ' :: unwrap cs
  | c :: cs => c :: unwrap cs
  | [] => []

/-- The lines of groups of names. All but the last one end in a comma. -/
def groupLines : List (List String) → List String
  | [] => []
  | [last] => [commaSeparated last]
  | group :: next :: rest => (commaSeparated group ++ ",") :: groupLines (next :: rest)

/-- The group can stand on a line, with a comma behind it. A single name always can. -/
structure Fits (width : Int) (group : List String) : Prop where
  nonempty : group ≠ []
  short : 2 ≤ group.length → (commaSeparated group ++ ",").length ≤ width

/-- Each group fits, and the first name of the next one would not have fitted behind it. -/
inductive Filled (width : Int) : List (List String) → Prop
  | last {group : List String} (fits : Fits width group) : Filled width [group]
  | closed {group more : List String} {name : String} {rest : List (List String)}
      (fits : Fits width group)
      (forced : width < (commaSeparated group ++ ", " ++ name ++ ",").length)
      (later : Filled width ((name :: more) :: rest)) :
      Filled width (group :: (name :: more) :: rest)

/-! Groups of names -/

theorem commaSeparated_append {names more : List String} (hnames : names ≠ []) (hmore : more ≠ []) :
    commaSeparated (names ++ more) = commaSeparated names ++ ", " ++ commaSeparated more :=
  String.intercalate_append_of_ne_nil hnames hmore

@[simp] theorem commaSeparated_singleton (name : String) : commaSeparated [name] = name :=
  String.intercalate_singleton

theorem commaSeparated_ne_empty {group : List String} (hgroup : group ≠ [])
    (hnames : ∀ name ∈ group, name ≠ "") : commaSeparated group ≠ "" := by
  cases group with
  | nil => exact absurd rfl hgroup
  | cons name rest =>
      cases rest with
      | nil => simpa using hnames name
      | cons next rest =>
          rw [← List.singleton_append, commaSeparated_append (by simp) (by simp)]
          intro h
          have hlength := congrArg String.length h
          simp only [String.length_append] at hlength
          exact absurd hlength (by simp)

theorem fits_singleton (width : Int) (name : String) : Fits width [name] :=
  ⟨by simp, fun h => absurd h (by simp)⟩

/-- What the loop makes of the names that are left when the open line holds `group`. -/
theorem exists_groups {width : Int} {group : List String} (hfits : Fits width group)
    {names : List String} (hnames : ∀ name ∈ group ++ names, name ≠ "") :
    ∃ more rest,
      wrapFrom width (commaSeparated group) names = groupLines ((group ++ more) :: rest) ∧
      ((group ++ more) :: rest).flatten = group ++ names ∧
      Filled width ((group ++ more) :: rest) := by
  induction names generalizing group with
  | nil => exact ⟨[], [], by simp [wrapFrom, groupLines], by simp, by simpa using .last hfits⟩
  | cons name names ih =>
      have hopen : commaSeparated group ≠ "" :=
        commaSeparated_ne_empty hfits.nonempty fun n hn => hnames n (List.mem_append_left _ hn)
      have hcandidate :
          commaSeparated group ++ ", " ++ name = commaSeparated (group ++ [name]) := by
        rw [commaSeparated_append hfits.nonempty (by simp), commaSeparated_singleton]
      rw [wrapFrom]
      simp only [hopen, if_false, ne_eq, not_false_eq_true, and_true]
      split
      · -- the line is closed, and the name begins the next one
        rename_i hwide
        obtain ⟨more, rest, hlines, hflatten, hfilled⟩ := ih (fits_singleton width name)
          fun n hn => hnames n (List.mem_append_right _ hn)
        rw [commaSeparated_singleton] at hlines
        refine ⟨[], ([name] ++ more) :: rest, ?_, ?_, ?_⟩
        · rw [hlines, List.append_nil, groupLines]
        · rw [List.append_nil, List.flatten_cons, hflatten, List.singleton_append]
        · rw [List.append_nil]
          refine .closed hfits ?_ hfilled
          rw [String.length_append]
          exact_mod_cast hwide
      · rename_i hnarrow
        have hfits' : Fits width (group ++ [name]) := by
          refine ⟨by simp, fun _ => ?_⟩
          rw [← hcandidate, String.length_append]
          exact_mod_cast Int.not_lt.1 hnarrow
        obtain ⟨more, rest, hlines, hflatten, hfilled⟩ := ih hfits' (by simpa using hnames)
        rw [List.append_assoc, List.singleton_append] at hlines hflatten hfilled
        rw [hcandidate]
        exact ⟨name :: more, rest, hlines, by simpa using hflatten, hfilled⟩

/-! Lines of groups -/

theorem groupLines_ne_nil {groups : List (List String)} (h : groups ≠ []) :
    groupLines groups ≠ [] := by
  cases groups with
  | nil => exact absurd rfl h
  | cons group rest => cases rest <;> simp [groupLines]

/-- All but the last line end in a comma. -/
theorem getLast?_of_mem_dropLast {groups : List (List String)} :
    ∀ line ∈ (groupLines groups).dropLast, line.toList.getLast? = some ',' := by
  induction groups with
  | nil => simp [groupLines]
  | cons group rest ih =>
      cases rest with
      | nil => simp [groupLines]
      | cons next rest =>
          rw [groupLines, List.dropLast_cons_of_ne_nil (groupLines_ne_nil (by simp)),
            List.forall_mem_cons]
          exact ⟨by simp, ih⟩

/-- A line is no longer than its group with a comma. -/
theorem length_le_of_getElem? {groups : List (List String)} {i : Nat} {group : List String}
    {line : String} (hgroup : groups[i]? = some group)
    (hline : (groupLines groups)[i]? = some line) :
    line.length ≤ (commaSeparated group ++ ",").length := by
  induction groups generalizing i with
  | nil => simp at hgroup
  | cons first rest ih =>
      cases rest with
      | nil =>
          obtain rfl : i = 0 := by
            have := List.getElem?_eq_some_iff.1 hgroup
            simp at this
            exact this.1
          obtain rfl : first = group := by simpa using hgroup
          obtain rfl : commaSeparated first = line := by simpa [groupLines] using hline
          rw [String.length_append]
          exact Nat.le_add_right _ _
      | cons next rest =>
          cases i with
          | zero =>
              obtain rfl : first = group := by simpa using hgroup
              obtain rfl : commaSeparated first ++ "," = line := by simpa [groupLines] using hline
              exact Nat.le_refl _
          | succ i => exact ih (by simpa using hgroup) (by simpa [groupLines] using hline)

theorem feed_not_mem_commaSeparated {group : List String}
    (h : ∀ name ∈ group, '\n' ∉ name.toList) : '\n' ∉ (commaSeparated group).toList := by
  induction group with
  | nil => simp [commaSeparated]
  | cons name rest ih =>
      rw [List.forall_mem_cons] at h
      cases rest with
      | nil => simpa using h.1
      | cons next rest =>
          rw [← List.singleton_append, commaSeparated_append (by simp) (by simp)]
          simpa using ⟨h.1, ih h.2⟩

theorem feed_not_mem_groupLines {groups : List (List String)}
    (h : ∀ name ∈ groups.flatten, '\n' ∉ name.toList) :
    ∀ line ∈ groupLines groups, '\n' ∉ line.toList := by
  induction groups with
  | nil => simp [groupLines]
  | cons group rest ih =>
      rw [List.flatten_cons, List.forall_mem_append] at h
      have hgroup := feed_not_mem_commaSeparated h.1
      cases rest with
      | nil => simpa [groupLines] using hgroup
      | cons next rest =>
          rw [groupLines, List.forall_mem_cons]
          exact ⟨by simpa using hgroup, ih h.2⟩

/-! Unwrapping -/

theorem unwrap_cons {c : Char} {cs : List Char} (h : ¬(c = ',' ∧ cs.head? = some '\n')) :
    unwrap (c :: cs) = c :: unwrap cs := by
  rw [unwrap]
  rintro cs' rfl rfl
  exact h ⟨rfl, rfl⟩

/-- Without line feeds there is nothing to unwrap before the first break. -/
theorem unwrap_append_break {cs : List Char} (h : '\n' ∉ cs) (ds : List Char) :
    unwrap (cs ++ ',' :: '\n' :: ds) = cs ++ ',' :: ' ' :: unwrap ds := by
  induction cs with
  | nil => rw [List.nil_append, unwrap, List.nil_append]
  | cons c cs ih =>
      rw [List.mem_cons, not_or] at h
      rw [List.cons_append, unwrap_cons, ih h.2, List.cons_append]
      rintro ⟨-, hhead⟩
      cases cs with
      | nil => simp at hhead
      | cons d cs =>
          simp only [List.cons_append, List.head?_cons, Option.some.injEq] at hhead
          exact h.2 (hhead ▸ List.mem_cons_self)

theorem unwrap_of_not_mem {cs : List Char} (h : '\n' ∉ cs) : unwrap cs = cs := by
  induction cs with
  | nil => rfl
  | cons c cs ih =>
      rw [List.mem_cons, not_or] at h
      rw [unwrap_cons, ih h.2]
      rintro ⟨-, hhead⟩
      exact h.2 (List.mem_of_mem_head? hhead)

/-- The lines of groups, unwrapped, are all names in their order. -/
theorem unwrap_groupLines {width : Int} {groups : List (List String)}
    (hfilled : Filled width groups) (hfeed : ∀ name ∈ groups.flatten, '\n' ∉ name.toList) :
    unwrap (String.intercalate "\n" (groupLines groups)).toList =
      (commaSeparated groups.flatten).toList := by
  induction hfilled with
  | @last group _ =>
      rw [List.flatten_singleton] at hfeed ⊢
      rw [groupLines, String.intercalate_singleton]
      exact unwrap_of_not_mem (feed_not_mem_commaSeparated hfeed)
  | @closed group more name rest fits _ _ ih =>
      rw [List.flatten_cons, List.forall_mem_append] at hfeed
      obtain ⟨first, lines, hlines⟩ := List.exists_cons_of_ne_nil
        (groupLines_ne_nil (List.cons_ne_nil (name :: more) rest))
      rw [hlines] at ih
      rw [groupLines, hlines, String.intercalate_cons_cons, List.flatten_cons,
        commaSeparated_append fits.nonempty (by simp)]
      rw [String.toList_append, @String.toList_append (commaSeparated group ++ ", "), ← ih hfeed.2]
      simp only [String.toList_append, List.append_assoc]
      exact unwrap_append_break (feed_not_mem_commaSeparated hfeed.1) _

/-! Wrapped names -/

theorem Filled.fits {width : Int} {groups : List (List String)} (h : Filled width groups) :
    ∀ group ∈ groups, Fits width group := by
  induction h with
  | last fits => exact List.forall_mem_singleton.2 fits
  | closed fits _ _ ih => exact List.forall_mem_cons.2 ⟨fits, ih⟩

theorem Filled.forced {width : Int} {groups : List (List String)} (h : Filled width groups)
    {i : Nat} {group more : List String} {name : String} (hgroup : groups[i]? = some group)
    (hnext : groups[i + 1]? = some (name :: more)) :
    width < (commaSeparated group ++ ", " ++ name ++ ",").length := by
  induction h generalizing i with
  | last _ => simp at hnext
  | closed _ forced _ ih =>
      cases i with
      | zero =>
          simp only [List.getElem?_cons_zero, Option.some.injEq] at hgroup
          simp only [Nat.zero_add, List.getElem?_cons_succ, List.getElem?_cons_zero,
            Option.some.injEq, List.cons.injEq] at hnext
          rw [← hgroup, ← hnext.1]
          exact forced
      | succ i => exact ih (by simpa using hgroup) (by simpa using hnext)

/-- The lines hold the names, group after group. -/
structure IsLayout (names : List String) (width : Int) (lines : List (List Char))
    (groups : List (List String)) : Prop where
  flatten : groups.flatten = names
  lines_eq : lines = (groupLines groups).map String.toList
  /-- Each line holds a name if there are any, -/
  nonempty : names ≠ [] → ∀ group ∈ groups, group ≠ []
  /-- and is no longer than the width unless it holds only one. -/
  short : ∀ (i : Nat) group line, groups[i]? = some group → lines[i]? = some line →
    2 ≤ group.length → line.length ≤ width
  /-- The next name and its comma would have made the line too long. -/
  forced : ∀ (i : Nat) group name more, groups[i]? = some group →
    groups[i + 1]? = some (name :: more) →
      width < (commaSeparated group ++ ", " ++ name ++ ",").length

/-- The text is a layout of the names that can be undone. -/
structure IsWrapped (names : List String) (width : Int) (text : String) : Prop where
  /-- Every line but the last one ends in a comma, -/
  commas : ∀ line ∈ (text.toList.splitOn '\n').dropLast, line.getLast? = some ','
  /-- and with blanks for the line feeds behind the commas the text is the list of the names. -/
  lossless : unwrap text.toList = (commaSeparated names).toList
  layout : ∃ groups, IsLayout names width (text.toList.splitOn '\n') groups

/-- Names are wrapped without loss, within the width where there is a choice, and only where it
forces a break. -/
theorem wrapNames_isWrapped {names : List String} (width : Int)
    (hnames : ∀ name ∈ names, name ≠ "" ∧ '\n' ∉ name.toList) :
    IsWrapped names width (wrapNames names width) := by
  cases names with
  | nil =>
      have htext : wrapNames [] width = "" := by simp [wrapNames, wrapFrom]
      rw [htext]
      refine ⟨by decide, rfl, [[]], rfl, rfl, by simp, ?_, by simp⟩
      intro i group line hgroup _ htwo
      obtain rfl := List.mem_singleton.1 (List.mem_of_getElem? hgroup)
      exact absurd htwo (by simp)
  | cons name names =>
      have hnonempty : ∀ n ∈ [name] ++ names, n ≠ "" := fun n hn => (hnames n hn).1
      obtain ⟨more, rest, hlines, hflatten, hfilled⟩ :=
        exists_groups (fits_singleton width name) hnonempty
      generalize hgroups : ([name] ++ more) :: rest = groups at hlines hflatten hfilled
      have htext : wrapNames (name :: names) width =
          String.intercalate "\n" (groupLines groups) := by
        rw [wrapNames, wrapFrom, ← hlines, commaSeparated_singleton]
        simp
      have hfeed : ∀ n ∈ groups.flatten, '\n' ∉ n.toList := by
        rw [hflatten]
        exact fun n hn => (hnames n hn).2
      have hsplit : (wrapNames (name :: names) width).toList.splitOn '\n' =
          (groupLines groups).map String.toList := by
        rw [htext, String.toList_intercalate]
        refine List.splitOn_intercalate '\n' ?_ ?_
        · exact List.forall_mem_map.2 (feed_not_mem_groupLines hfeed)
        · simpa using groupLines_ne_nil (hgroups ▸ List.cons_ne_nil _ _)
      refine ⟨?_, ?_, groups, hflatten, hsplit, ?_, ?_, ?_⟩
      · rw [hsplit, ← List.map_dropLast]
        exact List.forall_mem_map.2 getLast?_of_mem_dropLast
      · rw [htext, unwrap_groupLines hfilled hfeed, hflatten]
        rfl
      · exact fun _ group hgroup => (hfilled.fits group hgroup).nonempty
      · intro i group line hgroup hline htwo
        rw [hsplit, List.getElem?_map, Option.map_eq_some_iff] at hline
        obtain ⟨line, hline, rfl⟩ := hline
        have hle := length_le_of_getElem? hgroup hline
        have hshort := (hfilled.fits group (List.mem_of_getElem? hgroup)).short htwo
        rw [String.length_toList]
        omega
      · exact fun i group next more hgroup hnext => hfilled.forced hgroup hnext

/-- A name that is too long stands alone, and the next ones share a line. -/
theorem wrapNames_isWrapped_long :
    (∀ name ∈ ["sin", "arctangent", "ln", "max"], name ≠ "" ∧ '\n' ∉ name.toList) ∧
      wrapNames ["sin", "arctangent", "ln", "max"] 8 = "sin,\narctangent,\nln, max" ∧
      IsWrapped ["sin", "arctangent", "ln", "max"] 8 "sin,\narctangent,\nln, max" := by
  have hnames : ∀ name ∈ ["sin", "arctangent", "ln", "max"], name ≠ "" ∧ '\n' ∉ name.toList := by
    decide
  have htext : wrapNames ["sin", "arctangent", "ln", "max"] 8 = "sin,\narctangent,\nln, max" := by
    decide +kernel
  exact ⟨hnames, htext, htext ▸ wrapNames_isWrapped 8 hnames⟩

end FlightCurve.Reference
