/-
  Search bodies — settings of the rendering.

  * `Config` says which key sections of aggregations stand under and how the text is laid
    out; both have defaults.
  * `Config.render` is the text of a value under given settings, `Serializable.print` its
    standard text.
-/
import SearchBody.Document
import SearchBody.Json.Text

set_option autoImplicit false

namespace SearchBody

/-- How documents are rendered. -/
structure Config where
  sectionKey : SectionKey
  layout : Layout
deriving DecidableEq

namespace Config

/-- The short key, on one line. -/
def standard : Config := ⟨.aggs, .compact⟩

instance : Inhabited Config := ⟨standard⟩

/-- The text of a value under these settings, and the events of the walk. -/
def render {α : Type} [Serializable α] (c : Config) (x : α) : Logged String := do
  return (← Serializable.serialize c.sectionKey x).render c.layout

end Config

/-- The text of a value whatever the settings: under the short key, on one line. -/
def Serializable.print {α : Type} [Serializable α] (x : α) : Logged String := do
  return (← Serializable.serialize .aggs x).compact

end SearchBody
