import TypedClient.Module.Draft

namespace TypedClient.Proofs.Contents

open TypedClient.Module TypedClient.Text

theorem trimBlankEnd_append (s : String) {c : Char} (hc : isBlank c = false) :
    trimBlankEnd (s ++ String.singleton c) = s ++ String.singleton c := by
  have hlast : (s ++ String.singleton c).toList.reverse = c :: s.toList.reverse := by simp
  have hkeep : (c :: s.toList.reverse).dropWhile isBlank = c :: s.toList.reverse :=
    List.dropWhile_cons_of_neg (by simp [hc])
  rw [trimBlankEnd, trimEnd, hlast, hkeep, ← hlast, List.reverse_reverse, String.ofList_toList]

theorem contents_eq {d : Draft} {ds : List String} {last : String}
    (h : d.declarations = ds ++ [last ++ ";"]) :
    d.contents = d.header ++ String.join (d.imports.statements.map ("\n" ++ ·)) ++
      String.join (d.declarations.map ("\n\n" ++ ·)) ++ "\n" := by
  have hend : d.header ++ String.join (d.imports.statements.map ("\n" ++ ·)) ++
      String.join (d.declarations.map ("\n\n" ++ ·)) =
        d.header ++ String.join (d.imports.statements.map ("\n" ++ ·)) ++
          String.join (ds.map ("\n\n" ++ ·)) ++ "\n\n" ++ last ++ String.singleton ';' := by
    rw [h]
    simp [String.append_assoc]
  rw [Draft.contents, hend, trimBlankEnd_append _ (by decide)]

end TypedClient.Proofs.Contents
