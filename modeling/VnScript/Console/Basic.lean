namespace VnScript

/-- The only channel of a running program to the outside. An action that fails
gives its reason; a read gives `none` at the end of the input. -/
class Console (σ : Type) where
  writeLine : String → σ → Except String Unit × σ
  writePrompt : String → σ → Except String Unit × σ
  readLine : σ → Except String (Option String) × σ

end VnScript
