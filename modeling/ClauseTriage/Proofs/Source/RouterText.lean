import ClauseTriage.Proofs.Source.Methods

/-!
# Reading the text of a router

The class written for centers is read back to five methods. Its set-up stores every coordinate of
every center; the other methods are the blocks of a nearest-center scan.
-/
namespace ClauseTriage.Source

open Accessor Code Decimal Text

section Bodies

variable (r : Router)

/-- The lines of the set-up. -/
def setUpBody : List Line :=
  r.centers.zipIdx.flatMap fun entry => Router.centerLines r.members entry.2 entry.1

def squareBody : List Line := [⟨2, "return x*x;"⟩]

def distanceBody : List Line :=
  ⟨2, "double dist = 0;"⟩ ::
    ((r.members.map fun member => ⟨2, "dist+=sq(a." ++ member ++ "-b." ++ member ++ ");"⟩) ++
      [⟨2, "return dist;"⟩])

def closestBody : List Line :=
  [⟨2, "double closest_dist = std::numeric_limits<double>::max();"⟩,
   ⟨2, "int closest = -1;"⟩,
   ⟨2, "for (int i = 0; i < " ++ Text.nat r.centers.length ++ "; i++) \x7b"⟩,
   ⟨3, "double dist = norm_dist(center[i], p);"⟩,
   ⟨3, "if (dist < closest_dist) \x7b"⟩,
   ⟨4, "closest_dist = dist;"⟩,
   ⟨4, "closest = i;"⟩,
   ⟨3, "\x7d"⟩,
   ⟨2, "\x7d"⟩,
   ⟨2, "return closest;"⟩]

def constructorHead : List Char := (r.className ++ "()").toList

def distanceHead : List Char :=
  ("double norm_dist(const " ++ r.record ++ "& a, const " ++ r.record ++ "& b) const").toList

def closestHead : List Char := ("int which_is_closest(const " ++ r.record ++ "& p) const").toList

/-- The methods of the class, in order. -/
def routerMethods : List Method :=
  [⟨constructorHead r, [Line.mk 2 "set_up_centers();"].map raw⟩,
   ⟨"void set_up_centers()".toList, (setUpBody r).map raw⟩,
   ⟨"double sq(double x) const".toList, squareBody.map raw⟩,
   ⟨distanceHead r, (distanceBody r).map raw⟩,
   ⟨closestHead r, (closestBody r).map raw⟩]

end Bodies

section Layout

variable {r : Router} {rest : List Raw}

/-- The lines of a class, method by method. -/
theorem raw_router : r.lines.map raw ++ rest =
    raw (.flush ("class " ++ r.className ++ " \x7b")) :: raw (.flush "public:") ::
      raw ⟨1, r.className ++ "() \x7b"⟩ ::
        ([Line.mk 2 "set_up_centers();"].map raw ++ raw ⟨1, "\x7d"⟩ :: raw .blank ::
          raw ⟨1, r.record ++ " center[" ++ Text.nat r.centers.length ++ "];"⟩ :: raw .blank ::
            raw ⟨1, "void set_up_centers() \x7b"⟩ ::
        ((setUpBody r).map raw ++ raw ⟨1, "\x7d"⟩ :: raw .blank ::
            raw ⟨1, "double sq(double x) const \x7b"⟩ ::
        (squareBody.map raw ++ raw ⟨1, "\x7d"⟩ :: raw .blank ::
            raw ⟨1, "double norm_dist(const " ++ r.record ++ "& a, const " ++ r.record ++
              "& b) const \x7b"⟩ ::
        ((distanceBody r).map raw ++ raw ⟨1, "\x7d"⟩ :: raw .blank ::
            raw ⟨1, "int which_is_closest(const " ++ r.record ++ "& p) const \x7b"⟩ ::
        ((closestBody r).map raw ++ raw ⟨1, "\x7d"⟩ :: raw (.flush "\x7d;") :: rest))))) := by
  simp only [Router.lines, Router.setUpLines, Router.squareLines, Router.distanceLines,
    Router.closestLines, setUpBody, squareBody, distanceBody, closestBody, List.map_append,
    List.map_cons, List.map_nil, List.cons_append, List.append_assoc, List.nil_append]

theorem deep_setUpBody : ∀ l ∈ setUpBody r, l = .blank ∨ 2 ≤ l.depth := by
  simp only [setUpBody, Router.centerLines, List.forall_mem_flatMap, List.forall_mem_cons,
    List.forall_mem_map]
  intro _ _
  exact ⟨.inl trivial, .inr (Nat.le_refl 2), fun _ _ => .inr (Nat.le_refl 2)⟩

theorem deep_distanceBody : ∀ l ∈ distanceBody r, l = .blank ∨ 2 ≤ l.depth := by
  simp only [distanceBody, List.forall_mem_cons, List.forall_mem_append, List.forall_mem_map]
  exact ⟨.inr (Nat.le_refl 2), fun _ _ => .inr (Nat.le_refl 2), .inr (Nat.le_refl 2), by simp⟩

theorem deep_closestBody : ∀ l ∈ closestBody r, l = .blank ∨ 2 ≤ l.depth := by
  simp [closestBody]

theorem headOf?_distance :
    headOf? (raw ⟨1, "double norm_dist(const " ++ r.record ++ "& a, const " ++ r.record ++
      "& b) const \x7b"⟩) = some (distanceHead r) :=
  headOf?_raw (c := 'd') (by simp [distanceHead]) (by simp [distanceHead]) (by decide)

theorem headOf?_closest :
    headOf? (raw ⟨1, "int which_is_closest(const " ++ r.record ++ "& p) const \x7b"⟩) =
      some (closestHead r) :=
  headOf?_raw (c := 'i') (by simp [closestHead]) (by simp [closestHead]) (by decide)

theorem headOf?_constructor {c : Char} (hclass : r.className.toList.head? = some c) (hc : c ≠ ' ') :
    headOf? (raw ⟨1, r.className ++ "() \x7b"⟩) = some (constructorHead r) :=
  headOf?_raw (by simp [constructorHead]) (by simp [constructorHead, hclass]) hc

theorem headOf?_slots (count : String) :
    headOf? (raw ⟨1, r.record ++ " center[" ++ count ++ "];"⟩) = none := by
  have hraw : raw ⟨1, r.record ++ " center[" ++ count ++ "];"⟩ =
      indent 1 ++ ((r.record ++ " center[" ++ count ++ "]").toList ++ [';']) := by
    simp [raw]
  rw [hraw, headOf?, stripFront?_append]
  split
  · rfl
  · rfl
  · rename_i heq
    rw [← Option.some.inj heq]
    exact stripBack?_concat_ne (by decide) [' '] _

/-- The methods of a class are read back in order. -/
theorem methodsOf?_router {c : Char} (hclass : r.className.toList.head? = some c) (hc : c ≠ ' ') :
    methodsOf? (r.lines.map raw ++ rest) =
      (methodsOf? rest).map fun ms => routerMethods r ++ ms := by
  have hblank : headOf? (raw .blank) = none := rfl
  have hopen (text : String) : headOf? (raw (.flush ("class " ++ text ++ " \x7b"))) = none := by
    rw [String.append_assoc]
    exact headOf?_of_margin (margin_append (by decide) (by decide) _)
  have hpublic : headOf? (raw (.flush "public:")) = none := rfl
  have hclose : headOf? (raw (.flush "\x7d;")) = none := rfl
  have hsetUp : headOf? (raw ⟨1, "void set_up_centers() \x7b"⟩) =
      some "void set_up_centers()".toList := by decide +kernel
  have hsquare : headOf? (raw ⟨1, "double sq(double x) const \x7b"⟩) =
      some "double sq(double x) const".toList := by decide +kernel
  rw [raw_router, methodsOf?_cons (hopen _), methodsOf?_cons hpublic,
    methodsOf?_method (headOf?_constructor hclass hc) (by simp), methodsOf?_cons hblank,
    methodsOf?_cons (headOf?_slots _), methodsOf?_cons hblank,
    methodsOf?_method hsetUp deep_setUpBody, methodsOf?_cons hblank,
    methodsOf?_method hsquare (by simp [squareBody]), methodsOf?_cons hblank,
    methodsOf?_method headOf?_distance deep_distanceBody, methodsOf?_cons hblank,
    methodsOf?_method headOf?_closest deep_closestBody, methodsOf?_cons hclose]
  cases methodsOf? rest <;> rfl

theorem ne_of_getElem? {a b : List Char} {c d : Char} (i : Nat) (ha : a[i]? = some c)
    (hb : b[i]? = some d) (h : c ≠ d) : a ≠ b := by
  rintro rfl
  rw [ha] at hb
  exact h (Option.some.inj hb)

/-- The methods are found by their heads. -/
theorem bodyOf?_routerMethods (hclass : r.className.toList.head? = some 'C') :
    bodyOf? (routerMethods r) "void set_up_centers()".toList = some ((setUpBody r).map raw) ∧
      bodyOf? (routerMethods r) "double sq(double x) const".toList = some (squareBody.map raw) ∧
      bodyOf? (routerMethods r) (distanceHead r) = some ((distanceBody r).map raw) ∧
      bodyOf? (routerMethods r) (closestHead r) = some ((closestBody r).map raw) := by
  have hconstructor : (constructorHead r)[0]? = some 'C' := by
    rw [← List.head?_eq_getElem?]
    simp [constructorHead, hclass]
  have hsetUp : "void set_up_centers()".toList[0]? = some 'v' := rfl
  have hsquare : "double sq(double x) const".toList[0]? = some 'd' := rfl
  have hsquare' : "double sq(double x) const".toList[7]? = some 's' := rfl
  have hdistance : (distanceHead r)[0]? = some 'd' := by simp [distanceHead]
  have hdistance' : (distanceHead r)[7]? = some 'n' := by simp [distanceHead]
  have hclosest : (closestHead r)[0]? = some 'i' := by simp [closestHead]
  have h₁ := ne_of_getElem? 0 hconstructor hsetUp (by decide)
  have h₂ := ne_of_getElem? 0 hconstructor hsquare (by decide)
  have h₃ := ne_of_getElem? 0 hconstructor hdistance (by decide)
  have h₄ := ne_of_getElem? 0 hconstructor hclosest (by decide)
  have h₅ := ne_of_getElem? 0 hsetUp hsquare (by decide)
  have h₆ := ne_of_getElem? 0 hsetUp hdistance (by decide)
  have h₇ := ne_of_getElem? 0 hsetUp hclosest (by decide)
  have h₈ := ne_of_getElem? 7 hsquare' hdistance' (by decide)
  have h₉ := ne_of_getElem? 0 hsquare hclosest (by decide)
  have h₁₀ := ne_of_getElem? 0 hdistance hclosest (by decide)
  simp only [bodyOf?, routerMethods, List.find?_cons, h₁, h₂, h₃, h₄, h₅, h₆, h₇, h₈, h₉, h₁₀,
    decide_true, decide_false, Option.map_some, and_self]

end Layout

section Code

variable {r : Router}

/-- What the set-up of one center stores. -/
def storesAt (members : List String) (entry : List Float × Nat) : List Store :=
  (members.zip entry.1).map fun pair => ⟨entry.2, pair.1, pair.2⟩

theorem storesOf?_centerLines {members : List String} {entry : List Float × Nat} {rest : List Raw}
    (hfinite : ∀ x ∈ entry.1, x.isFinite = true) :
    storesOf? ((Router.centerLines members entry.2 entry.1).map raw ++ rest) =
      (storesOf? rest).map fun ss => storesAt members entry ++ ss := by
  have hassignments (pairs : List (String × Float)) (hpairs : ∀ p ∈ pairs, p.2.isFinite = true) :
      storesOf? ((pairs.map fun p => Line.mk 2 ("center[" ++ Text.nat entry.2 ++ "]." ++ p.1 ++
        " = " ++ literal p.2 ++ ";")).map raw ++ rest) =
        (storesOf? rest).map fun ss => (pairs.map fun p => ⟨entry.2, p.1, p.2⟩) ++ ss := by
    induction pairs with
    | nil => cases h : storesOf? rest <;> simp [h]
    | cons pair pairs ih =>
      obtain ⟨hpair, hpairs⟩ := List.forall_mem_cons.1 hpairs
      rw [List.map_cons, List.map_cons, List.cons_append,
        storesOf?_some (storeOf?_assignment entry.2 pair.1 hpair), ih hpairs, Option.map_map]
      rfl
  have hblank : storeOf? (raw .blank) = some none := rfl
  have hcomment : storeOf? (raw ⟨2, "// center " ++ Text.nat entry.2⟩) = some none := by
    have hraw : raw ⟨2, "// center " ++ Text.nat entry.2⟩ =
        indent 2 ++ "// ".toList ++ ("center ".toList ++ (Text.nat entry.2).toList) := by
      simp [raw]
    rw [hraw, storeOf?, if_neg (by simp [indent]), stripFront?_append]
  rw [Router.centerLines, List.map_cons, List.map_cons, List.cons_append, List.cons_append,
    storesOf?_none hblank, storesOf?_none hcomment]
  exact hassignments (members.zip entry.1) fun p hp => hfinite p.2 (List.of_mem_zip hp).2

/-- The set-up stores the coordinates of all centers in order. -/
theorem storesOf?_setUpBody (hfinite : ∀ center ∈ r.centers, ∀ x ∈ center, x.isFinite = true) :
    storesOf? ((setUpBody r).map raw) = some (r.centers.zipIdx.flatMap (storesAt r.members)) := by
  have hentries (entries : List (List Float × Nat))
      (h : ∀ entry ∈ entries, ∀ x ∈ entry.1, x.isFinite = true) :
      storesOf? ((entries.flatMap fun e => Router.centerLines r.members e.2 e.1).map raw) =
        some (entries.flatMap (storesAt r.members)) := by
    induction entries with
    | nil => rfl
    | cons entry entries ih =>
      obtain ⟨hentry, hentries⟩ := List.forall_mem_cons.1 h
      rw [List.flatMap_cons, List.map_append, storesOf?_centerLines hentry, ih hentries,
        Option.map_some, List.flatMap_cons]
  exact hentries _ fun entry hentry => hfinite entry.1 (List.fst_mem_of_mem_zipIdx hentry)

def squareBlock : Block := .result (.product "x" "x")

/-- A sum over members, in order. -/
def distanceBlock (members : List String) : Block :=
  .step (.declare .double "dist" (.integer 0))
    (members.foldr (fun member => .step (.addSquare "dist" "a" "b" member)) (.result (.read "dist")))

/-- One round of the scan. -/
def roundBlock : Block :=
  .step (.declare .double "dist" (.distance "i" "p"))
    (.whenLess "dist" "closest_dist"
      (.step (.assign "closest_dist" (.read "dist")) (.step (.assign "closest" (.read "i")) .done))
      .done)

def closestBlock (count : Nat) : Block :=
  .step (.declare .double "closest_dist" .largest)
    (.step (.declare .int "closest" (.integer (-1)))
      (.loop "i" count roundBlock (.result (.read "closest"))))

theorem readCode?_square : readCode? 2 (squareBody.map raw) = some squareBlock := by
  have hphrase : phraseOf? "return x*x;".toList = some (.result (.product "x" "x")) := by
    decide +kernel
  rw [readCode?, squareBody, List.map_singleton, readBlock?_result hphrase]
  rfl

theorem readCode?_distance : readCode? 2 ((distanceBody r).map raw) =
    some (distanceBlock r.members) := by
  have hdeclare : phraseOf? "double dist = 0;".toList =
      some (.step (.declare .double "dist" (.integer 0))) := by decide +kernel
  have hreturn : phraseOf? "return dist;".toList = some (.result (.read "dist")) := by
    decide +kernel
  have hsum (members : List String) (fuel : Nat) (hfuel : members.length < fuel) :
      readBlock? fuel 2 ((members.map fun member =>
        raw ⟨2, "dist+=sq(a." ++ member ++ "-b." ++ member ++ ");"⟩) ++
          [raw ⟨2, "return dist;"⟩]) =
        some (members.foldr (fun member => .step (.addSquare "dist" "a" "b" member))
          (.result (.read "dist")), []) := by
    induction members generalizing fuel with
    | nil =>
      obtain ⟨fuel, rfl⟩ : ∃ n, fuel = n + 1 := ⟨fuel - 1, by simp at hfuel; omega⟩
      exact readBlock?_result hreturn
    | cons member members ih =>
      obtain ⟨fuel, rfl⟩ : ∃ n, fuel = n + 1 := ⟨fuel - 1, by simp at hfuel; omega⟩
      rw [List.map_cons, List.cons_append, readBlock?_step (phraseOf?_addSquare member),
        ih fuel (by simpa using hfuel)]
      rfl
  have hlines : (distanceBody r).map raw = raw ⟨2, "double dist = 0;"⟩ ::
      ((r.members.map fun member =>
        raw ⟨2, "dist+=sq(a." ++ member ++ "-b." ++ member ++ ");"⟩) ++ [raw ⟨2, "return dist;"⟩]) := by
    simp [distanceBody, Function.comp_def]
  rw [hlines, readCode?, readBlock?_step hdeclare, hsum _ _ (by
    rw [List.length_cons, List.length_append, List.length_map]
    omega)]
  rfl

theorem readCode?_closest : readCode? 2 ((closestBody r).map raw) =
    some (closestBlock r.centers.length) := by
  have hlargest : phraseOf? "double closest_dist = std::numeric_limits<double>::max();".toList =
      some (.step (.declare .double "closest_dist" .largest)) := by decide +kernel
  have hnone : phraseOf? "int closest = -1;".toList =
      some (.step (.declare .int "closest" (.integer (-1)))) := by decide +kernel
  have hdistance : phraseOf? "double dist = norm_dist(center[i], p);".toList =
      some (.step (.declare .double "dist" (.distance "i" "p"))) := by decide +kernel
  have hless : phraseOf? "if (dist < closest_dist) \x7b".toList =
      some (.whenLess "dist" "closest_dist") := by decide +kernel
  have hbest : phraseOf? "closest_dist = dist;".toList =
      some (.step (.assign "closest_dist" (.read "dist"))) := by decide +kernel
  have hindex : phraseOf? "closest = i;".toList =
      some (.step (.assign "closest" (.read "i"))) := by decide +kernel
  have hreturn : phraseOf? "return closest;".toList = some (.result (.read "closest")) := by
    decide +kernel
  -- from the innermost block outwards; the fuel left is what the lines above have not used
  have hbranch (tail : List Raw) : readBlock? 6 4 (raw ⟨4, "closest_dist = dist;"⟩ ::
      raw ⟨4, "closest = i;"⟩ :: raw ⟨3, "\x7d"⟩ :: tail) =
        some (.step (.assign "closest_dist" (.read "dist"))
          (.step (.assign "closest" (.read "i")) .done), raw ⟨3, "\x7d"⟩ :: tail) := by
    rw [readBlock?_step hbest, readBlock?_step hindex, readBlock?_close]
    rfl
  have hround (tail : List Raw) : readBlock? 8 3 (raw ⟨3, "double dist = norm_dist(center[i], p);"⟩ ::
      raw ⟨3, "if (dist < closest_dist) \x7b"⟩ :: raw ⟨4, "closest_dist = dist;"⟩ ::
        raw ⟨4, "closest = i;"⟩ :: raw ⟨3, "\x7d"⟩ :: raw ⟨2, "\x7d"⟩ :: tail) =
          some (roundBlock, raw ⟨2, "\x7d"⟩ :: tail) := by
    rw [readBlock?_step hdistance, readBlock?_whenLess hless (hbranch _), readBlock?_close]
    rfl
  have hblock : readBlock? 11 2 ((closestBody r).map raw) =
      some (closestBlock r.centers.length, []) := by
    rw [closestBody]
    simp only [List.map_cons, List.map_nil]
    rw [readBlock?_step hlargest, readBlock?_step hnone,
      readBlock?_loop (phraseOf?_loop r.centers.length) (hround _), readBlock?_result hreturn]
    rfl
  have hlength : ((closestBody r).map raw).length + 1 = 11 := by simp [closestBody]
  rw [readCode?, hlength, hblock]

/-- The declared number of centers is read before any other line of its form. -/
theorem slotsOf?_router {rest : List Raw} :
    slotsOf? r.record (r.lines.map raw ++ rest) = some r.centers.length := by
  have hclass (text : String) :
      slotsAt? r.record (raw (.flush ("class " ++ text ++ " \x7b"))) = none := by
    rw [String.append_assoc]
    exact slotsAt?_of_margin (margin_append (by decide) (by decide) _)
  have hpublic : slotsAt? r.record (raw (.flush "public:")) = none :=
    slotsAt?_of_margin (margin_ofList (by decide))
  have hconstructor (text : String) : slotsAt? r.record (raw ⟨1, text ++ "() \x7b"⟩) = none := by
    have hraw : raw ⟨1, text ++ "() \x7b"⟩ = indent 1 ++ (text ++ "() ").toList ++ ['\x7b'] := by
      simp [raw]
    rw [hraw]
    exact slotsAt?_of_back (stripBack?_concat_ne (by decide) [']'] _)
  have hcall : slotsAt? r.record (raw ⟨2, "set_up_centers();"⟩) = none :=
    slotsAt?_of_back (by decide +kernel)
  have hclose : slotsAt? r.record (raw ⟨1, "\x7d"⟩) = none := slotsAt?_of_back (by decide +kernel)
  rw [raw_router, slotsOf?_cons (hclass _), slotsOf?_cons hpublic, slotsOf?_cons (hconstructor _),
    List.map_singleton, List.singleton_append, slotsOf?_cons hcall, slotsOf?_cons hclose,
    slotsOf?_cons (slotsAt?_of_margin (by decide)), slotsOf?, List.findSome?_cons, slotsAt?_slots]

/-- The header of a router is read back to the code of its methods. -/
theorem readRouter?_header (base : String) (host : Host)
    (hclass : r.className.toList.head? = some 'C')
    (hfinite : ∀ center ∈ r.centers, ∀ x ∈ center, x.isFinite = true) :
    readRouter? r.record ((r.header base host).lines.map raw) =
      some ⟨r.centers.length, r.centers.zipIdx.flatMap (storesAt r.members), squareBlock,
        distanceBlock r.members, closestBlock r.centers.length⟩ := by
  obtain ⟨hfront, hback⟩ := @margin_of_mem_frame (r.header base host) rfl
  have hbody : (r.header base host).body = r.lines := rfl
  have hmethods : methodsOf? ((r.header base host).lines.map raw) = some (routerMethods r) := by
    rw [Header.lines_eq, List.map_append, List.map_append, hbody,
      methodsOf?_append (List.forall_mem_map.2 fun l hl => headOf?_of_margin (hfront l hl)),
      methodsOf?_router hclass (by decide), ← List.append_nil (List.map raw (backOf _)),
      methodsOf?_append (List.forall_mem_map.2 fun l hl => headOf?_of_margin (hback l hl)),
      methodsOf?, Option.map_some, List.append_nil]
  have hslots : slotsOf? r.record ((r.header base host).lines.map raw) =
      some r.centers.length := by
    rw [Header.lines_eq, List.map_append, List.map_append, hbody,
      slotsOf?_append (List.forall_mem_map.2 fun l hl => slotsAt?_of_margin (hfront l hl)),
      slotsOf?_router]
  obtain ⟨hsetUp, hsquare, hdistance, hclosest⟩ := bodyOf?_routerMethods hclass
  rw [distanceHead] at hdistance
  rw [closestHead] at hclosest
  rw [readRouter?, hmethods, hslots]
  simp only [Option.bind_eq_bind, Option.bind_some, hsetUp, hsquare, hdistance, hclosest,
    storesOf?_setUpBody hfinite, readCode?_square, readCode?_distance, readCode?_closest]
  rfl

end Code

end ClauseTriage.Source
