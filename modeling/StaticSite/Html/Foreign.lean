import StaticSite.Html.Names
import StaticSite.Html.Token

/-! Names in drawings and formulas: those that HTML spells without capitals, and those with a
prefix. -/

namespace StaticSite.Html

/-- Names with capitals, each found by its spelling without. -/
def respell (spellings : List String) (name : String) : String :=
  (spellings.find? fun s => String.ofList (lower s.toList) == name).getD name

def svgElements : List String :=
  ["altGlyph", "altGlyphDef", "altGlyphItem", "animateColor", "animateMotion", "animateTransform",
    "clipPath", "feBlend", "feColorMatrix", "feComponentTransfer", "feComposite",
    "feConvolveMatrix", "feDiffuseLighting", "feDisplacementMap", "feDistantLight", "feDropShadow",
    "feFlood", "feFuncA", "feFuncB", "feFuncG", "feFuncR", "feGaussianBlur", "feImage", "feMerge",
    "feMergeNode", "feMorphology", "feOffset", "fePointLight", "feSpecularLighting", "feSpotLight",
    "feTile", "feTurbulence", "foreignObject", "glyphRef", "linearGradient", "radialGradient",
    "textPath"]

def svgAttributes : List String :=
  ["attributeName", "attributeType", "baseFrequency", "baseProfile", "calcMode", "clipPathUnits",
    "diffuseConstant", "edgeMode", "filterUnits", "glyphRef", "gradientTransform", "gradientUnits",
    "kernelMatrix", "kernelUnitLength", "keyPoints", "keySplines", "keyTimes", "lengthAdjust",
    "limitingConeAngle", "markerHeight", "markerUnits", "markerWidth", "maskContentUnits",
    "maskUnits", "numOctaves", "pathLength", "patternContentUnits", "patternTransform",
    "patternUnits", "pointsAtX", "pointsAtY", "pointsAtZ", "preserveAlpha", "preserveAspectRatio",
    "primitiveUnits", "refX", "refY", "repeatCount", "repeatDur", "requiredExtensions",
    "requiredFeatures", "specularConstant", "specularExponent", "spreadMethod", "startOffset",
    "stdDeviation", "stitchTiles", "surfaceScale", "systemLanguage", "tableValues", "targetX",
    "targetY", "textLength", "viewBox", "viewTarget", "xChannelSelector", "yChannelSelector",
    "zoomAndPan"]

/-- The attributes that are written with a prefix, by their full spelling. -/
def spacedAttributes : List (String × AttributeSpace × String) :=
  (["actuate", "arcrole", "href", "role", "show", "title", "type"].map fun n =>
    ("xlink:" ++ n, .xlink, n)) ++
  (["base", "lang", "space"].map fun n => ("xml:" ++ n, .xml, n)) ++
  [("xmlns", .xmlns, "xmlns"), ("xmlns:xlink", .xmlns, "xlink")]

/-- The attributes of an HTML tag. -/
def plainAttributes (t : Tag) : List Attribute := t.attributes.map fun (n, v) => ⟨.none, n, v⟩

/-- The attributes of a tag in a drawing or a formula. -/
def foreignAttributes (v : Vocabulary) (t : Tag) : List Attribute :=
  t.attributes.map fun (n, value) =>
    let n := match v with
      | .svg => respell svgAttributes n
      | .math => if n == "definitionurl" then "definitionURL" else n
      | .html => n
    match spacedAttributes.lookup n with
    | some (space, name) => ⟨space, name, value⟩
    | none => ⟨.none, n, value⟩

def foreignName (v : Vocabulary) (name : String) : String :=
  if v == .svg then respell svgElements name else name

end StaticSite.Html
